import NornRune.Objects.Planes

open Bitplane

namespace NornRune

structure EvidenceBatch where
  ids : List Nat
  kinds : List Nat
  states : List Nat
  subjects : List Nat
  scopes : List Nat
  reviewers : List Nat
  timings : List Nat
  timestamps : List Int

structure EvidenceRecord where
  id : Nat
  kind : Nat
  state : Nat
  subject : Nat
  scope : Nat
  reviewer : Nat
  timing : Nat
  timestamp : Int
  deriving DecidableEq, Repr

namespace EvidenceBatch

def record (e : EvidenceBatch) (row : Nat) : EvidenceRecord where
  id := e.ids.getD row 0
  kind := e.kinds.getD row 0
  state := e.states.getD row 0
  subject := e.subjects.getD row 0
  scope := e.scopes.getD row 0
  reviewer := e.reviewers.getD row 0
  timing := e.timings.getD row 0
  timestamp := e.timestamps.getD row 0

end EvidenceBatch

-- Request facts and evidence, column by column. A batch can be a view of the rows from `rowBase` on
-- of a larger batch with `rowStride` rows. A stride of zero means that the batch is not a view.
structure Batch where
  symbolValues : List Nat
  integerValues : List Int
  timestampValues : List Int
  booleanValues : List Word
  presenceMasks : List Word
  requestIDs : List Nat
  evidenceOffsets : List Nat
  evidenceRefs : List Nat
  evidence : EvidenceBatch
  rows : Nat
  rowBase : Nat
  rowStride : Nat
  -- A slice of 32 bit values never spans more bytes than an `int` can count.
  symbolValues_le : symbolValues.length ≤ maxInt / 4

namespace Batch

def zero : Batch where
  symbolValues := []
  integerValues := []
  timestampValues := []
  booleanValues := []
  presenceMasks := []
  requestIDs := []
  evidenceOffsets := []
  evidenceRefs := []
  evidence := ⟨[], [], [], [], [], [], [], []⟩
  rows := 0
  rowBase := 0
  rowStride := 0
  symbolValues_le := Nat.zero_le _

def sourceRows (b : Batch) : Nat :=
  if b.rowStride = 0 then b.rows else b.rowStride

def sourceWords (b : Batch) : Nat :=
  wordCount b.sourceRows

def wordBase (b : Batch) : Nat :=
  b.rowBase >>> 6

def validPhysicalRange (b : Batch) : Bool :=
  b.rowBase % 64 == 0 && (b.rowStride != 0 || b.rowBase == 0) &&
  decide (b.rowBase + b.rows ≤ b.sourceRows)

def columnRows {α : Type} (b : Batch) (values : List α) (column : Nat) : List α :=
  Region.read values (column * b.sourceRows + b.rowBase) b.rows

def columnWords (b : Batch) (values : List Word) (column : Nat) : List Word :=
  Region.read values (column * b.sourceWords + b.wordBase) (wordCount b.rows)

def rowColumn {α : Type} (b : Batch) (values : List α) (column : Nat) : Except Panic (List α) :=
  if values.length < column * b.sourceRows + b.rowBase + b.rows then
    .error "eval: invalid batch row column"
  else .ok (b.columnRows values column)

def wordColumn (b : Batch) (values : List Word) (column : Nat) : Except Panic (List Word) :=
  if values.length < column * b.sourceWords + b.wordBase + wordCount b.rows then
    .error "eval: invalid batch word column"
  else .ok (b.columnWords values column)

end Batch
end NornRune
