import NornRune.Compile.Meaning
import NornRune.Compile.Theorems.Values

open Checked

-- The literals of a document become values of the program, each of them once. Which values they become
-- does not depend on the tables by which equal ones are found.
namespace NornRune

inductive Literal
  | symbol (bytes : List Byte)
  | integer (i : Int)
  | boolean (b : Bool)
  | timestamp (t : Int)
  deriving DecidableEq, Repr

def Document.literalOf (doc : Document) (id : Nat) : Option Literal :=
  match doc.literalValueKind id with
  | some .symbol => (doc.symbolValue id).map .symbol
  | some .integer => (doc.integerValue id).map .integer
  | some .boolean => (doc.booleanValue id).map .boolean
  | some .timestamp => (doc.timestampValue id).map .timestamp
  | _ => none

def ValueWalk.literalOf (w : ValueWalk) (id : Nat) : Option Literal :=
  if id = 0 then none
  else match w.values.kinds[id - 1]?, w.values.refs[id - 1]? with
    | some .symbol, some ref => (w.symbols.symbol ref).map .symbol
    | some .integer, some ref => if ref = 0 then none else w.values.integers[ref - 1]?.map .integer
    | some .boolean, some ref =>
      if ref = 0 then none else w.values.booleans[ref - 1]?.map (.boolean <| · != 0)
    | some .timestamp, some ref => if ref = 0 then none else w.values.timestamps[ref - 1]?.map .timestamp
    | _, _ => none

namespace Payload

def literal (names : List (List Byte)) : Payload → Option Literal
  | symbol s => if s = 0 then none else names[s - 1]?.map .symbol
  | integer i => some (.integer i)
  | boolean b => some (.boolean b)
  | timestamp t => some (.timestamp t)

theorem literal_inj (hn : names.Nodup) {p p' : Payload} {x : Literal} (h : p.literal names = some x)
    (h' : p'.literal names = some x) : p = p' := by
  cases p <;> cases p' <;> simp only [literal, Option.ite_none_left_eq_some, Option.map_eq_some_iff,
    Option.some.injEq] at h h'
  case symbol.symbol s s' =>
    obtain ⟨h0, b, hb, rfl⟩ := h
    obtain ⟨h0', b', hb', he⟩ := h'
    cases he
    have ⟨hlt, hget⟩ := List.getElem?_eq_some_iff.mp hb
    have ⟨hlt', hget'⟩ := List.getElem?_eq_some_iff.mp hb'
    have := (hn.getElem_inj_iff).mp (hget.trans hget'.symm)
    rw [show s = s' by omega]
  case symbol.integer | symbol.boolean | symbol.timestamp =>
    obtain ⟨_, _, _, rfl⟩ := h
    cases h'
  case integer.symbol | boolean.symbol | timestamp.symbol =>
    obtain ⟨_, _, _, rfl⟩ := h'
    cases h
  all_goals
    subst h
    cases h'
  all_goals rfl

end Payload

variable {doc : Document} {names : List (List Byte)} {w : ValueWalk} {payload : Payload} {id n : Nat}

theorem Document.HasPayload.literalOf (h : doc.HasPayload names id payload) :
    ∃ x, doc.literalOf id = some x ∧ payload.literal names = some x := by
  have hk := h.kind
  unfold Document.literalOf
  cases payload
  case symbol s =>
    have ⟨h0, b, hb, hs⟩ := h
    simp only [Payload.kind] at hk
    exact ⟨.symbol b, by simp [hk, hb], by simp [Payload.literal, h0, hs]⟩
  case integer i =>
    simp only [Payload.kind] at hk
    exact ⟨.integer i, by simp [hk, show doc.integerValue id = some i from h], rfl⟩
  case boolean b =>
    simp only [Payload.kind] at hk
    exact ⟨.boolean b, by simp [hk, show doc.booleanValue id = some b from h], rfl⟩
  case timestamp t =>
    simp only [Payload.kind] at hk
    exact ⟨.timestamp t, by simp [hk, show doc.timestampValue id = some t from h], rfl⟩

theorem ValueTable.Stored.literalOf (hs : w.symbols.Holds names) (h : w.values.Stored id payload) :
    w.literalOf id = payload.literal names := by
  have ⟨ref, hr, he⟩ := h.ref
  rw [ValueWalk.literalOf, if_neg h.ne_zero, h.kind, hr]
  simp only [ValueTable.valueEqual, Bool.and_eq_true, beq_iff_eq, true_and] at he
  cases payload
  case symbol s =>
    simp only [beq_iff_eq] at he
    subst he
    by_cases h0 : ref = 0
    case pos => simp [Payload.kind, Payload.literal, h0, SymbolTable.symbol]
    case neg => simp [Payload.kind, Payload.literal, h0, hs.symbol_eq h0]
  case boolean b =>
    simp only [Bool.and_eq_true, bne_iff_ne, beq_iff_eq] at he
    cases b <;> simp [Payload.kind, Payload.literal, he.1, he.2]
  all_goals
    simp only [Bool.and_eq_true, bne_iff_ne, beq_iff_eq] at he
    simp [Payload.kind, Payload.literal, he.1, he.2]

namespace ValueTable

variable {t : ValueTable} {hash : BitVec 64}

def erase (t : ValueTable) : ValueTable := { t with slots := [] }

def internByScan (t : ValueTable) (payload : Payload) : Except CompileError (ValueTable × Nat) :=
  match (List.range' 1 t.kinds.length).find? fun id =>
      t.valueEqual (t.kinds.getD (id - 1) .invalid) (t.refs.getD (id - 1) 0) payload with
  | some id => .ok (t, id)
  | none =>
    if maxUint32 ≤ t.kinds.length then .error .programTooLarge
    else do
      let (t, ref) ← t.appendValuePayload payload
      return ({ t with kinds := t.kinds ++ [payload.kind], refs := t.refs ++ [ref] }, t.kinds.length + 1)

theorem map_erase_appendValuePayload : (t.appendValuePayload payload).map (fun x => (x.1.erase, x.2)) =
    t.erase.appendValuePayload payload := by
  cases payload
  all_goals
    simp only [appendValuePayload, apply_ite (Except.map _)]
    rfl

theorem Sound.stored_iff (h : t.Sound names) (h0 : id ≠ 0) (hle : id ≤ t.kinds.length) :
    t.valueEqual (t.kinds.getD (id - 1) .invalid) (t.refs.getD (id - 1) 0) payload ↔
      t.Stored id payload := by
  have hk : id - 1 < t.kinds.length := by omega
  have hr : id - 1 < t.refs.length := by rw [h.length]; omega
  rw [List.getD_eq_getElem _ _ hk, List.getD_eq_getElem _ _ hr]
  constructor
  case mp =>
    intro he
    have hkind : t.kinds[id - 1] = payload.kind := by
      simp only [valueEqual, Bool.and_eq_true, beq_iff_eq] at he
      exact he.1
    exact ⟨h0, by rw [List.getElem?_eq_getElem hk, hkind], _, List.getElem?_eq_getElem hr, hkind ▸ he⟩
  case mpr =>
    intro hp
    obtain ⟨ref, hr', he⟩ := hp.ref
    have hkind := hp.kind
    rw [List.getElem?_eq_getElem hk, Option.some.injEq] at hkind
    rw [List.getElem?_eq_getElem hr, Option.some.injEq] at hr'
    rw [hkind, hr']
    exact he

theorem Sound.map_erase_intern (h : t.Sound names)
    (hh : hash = valueHash payload (text names payload)) (hroom : none ∈ t.slots) :
    (t.intern hash payload).map (fun x => (x.1.erase, x.2)) = t.erase.internByScan payload := by
  have hne : ¬t.slots.length = 0 := by
    have := List.length_pos_of_mem hroom
    omega
  have hscan : ∀ id, id ∈ List.range' 1 t.kinds.length → (t.valueEqual (t.kinds.getD (id - 1) .invalid)
      (t.refs.getD (id - 1) 0) payload ↔ t.Stored id payload) := fun id hm => by
    rw [List.mem_range'_1] at hm
    exact h.stored_iff (by omega) (by omega)
  rw [ValueTable.intern, if_neg hne, internByScan]
  cases hf : Probe.find t.slots (fun s => t.valueEqual s.kind s.ref payload) hash.toNat
  case full => exact absurd hf (Probe.find_ne_full hroom _)
  case entry s =>
    have ⟨hs, he⟩ := Probe.mem_of_find hf
    have hp := h.stored_of_valueEqual hs he
    have hfind : (List.range' 1 t.erase.kinds.length).find? (fun id =>
        t.erase.valueEqual (t.erase.kinds.getD (id - 1) .invalid) (t.erase.refs.getD (id - 1) 0) payload) =
        some s.id := by
      have hle := hp.le
      refine List.find?_range'_eq_some.mpr ⟨(h.stored_iff hle.1 hle.2).mpr hp,
        List.mem_range'_1.mpr (by change 1 ≤ s.id ∧ s.id < 1 + t.kinds.length; omega), fun j hj hlt => ?_⟩
      simp only [Bool.not_eq_true']
      by_contra hb
      rw [Bool.not_eq_false] at hb
      have := h.unique j s.id payload ((h.stored_iff (by omega) (by omega)).mp hb) hp
      omega
    rw [hfind]
    rfl
  case vacant slot =>
    have hnew := h.not_stored_of_vacant hh hf
    have hfind : (List.range' 1 t.erase.kinds.length).find? (fun id =>
        t.erase.valueEqual (t.erase.kinds.getD (id - 1) .invalid) (t.erase.refs.getD (id - 1) 0) payload) =
        none := List.find?_eq_none.mpr fun id hm hb => hnew id ((hscan id hm).mp hb)
    rw [hfind]
    change Except.map _ (if maxUint32 ≤ t.kinds.length then _ else _) =
      if maxUint32 ≤ t.kinds.length then _ else _
    split
    case isTrue => rfl
    case isFalse => exact map_bind_eq map_erase_appendValuePayload fun _ _ => rfl

end ValueTable

namespace SymbolTable

variable {t : SymbolTable} {b : List Byte}

def erase (t : SymbolTable) : SymbolTable := { t with slots := [] }

def internByScan (t : SymbolTable) (b : List Byte) : Except CompileError (SymbolTable × Nat) :=
  match (List.range' 1 t.starts.length).find? fun id => t.symbol id == some b with
  | some id => .ok (t, id)
  | none =>
    if maxUint32 ≤ t.starts.length ∨ maxUint32 < t.bytes.length + b.length then .error .programTooLarge
    else .ok ({ t with
      bytes := t.bytes ++ b
      starts := t.starts ++ [t.bytes.length]
      lengths := t.lengths ++ [b.length] }, t.starts.length + 1)

theorem Holds.map_erase_intern (h : t.Holds names) (hroom : names.length < t.slots.length) :
    (t.intern b).map (fun x => (x.1.erase, x.2)) = t.erase.internByScan b := by
  have hnone : none ∈ t.slots := Probe.none_mem_of_filled (by rw [h.filled]; exact hroom)
  have hlen : t.starts.length = names.length := by rw [h.starts, Ragged.length_starts]
  have hne : ¬t.slots.length = 0 := by omega
  rw [SymbolTable.intern, if_neg hne, internByScan]
  cases hf : Probe.find t.slots (fun id => t.symbol id == some b) (hashSymbol b).toNat
  case full => exact absurd hf (Probe.find_ne_full hnone _)
  case entry id =>
    have ⟨hs, hb⟩ := Probe.mem_of_find hf
    have ⟨h0, hle⟩ := (h.slots id).mp hs
    have hname := h.mem_of_symbol hs hb
    have hfind : (List.range' 1 t.erase.starts.length).find? (fun id => t.erase.symbol id == some b) =
        some id := by
      refine List.find?_range'_eq_some.mpr ⟨hb, List.mem_range'_1.mpr (by
        change 1 ≤ id ∧ id < 1 + t.starts.length
        omega), fun j hj hlt => ?_⟩
      simp only [Bool.not_eq_true', beq_eq_false_iff_ne]
      intro he
      have he : t.symbol j = some b := he
      rw [h.symbol_eq (by omega)] at he
      have ⟨_, hget⟩ := List.getElem?_eq_some_iff.mp he
      have ⟨_, hget'⟩ := List.getElem?_eq_some_iff.mp hname
      have := (h.nodup.getElem_inj_iff).mp (hget.trans hget'.symm)
      omega
    rw [hfind]
    rfl
  case vacant slot =>
    have hnew := h.not_mem_of_vacant hf
    have hfind : (List.range' 1 t.erase.starts.length).find? (fun id => t.erase.symbol id == some b) =
        none := by
      refine List.find?_eq_none.mpr fun id hm hb => ?_
      rw [List.mem_range'_1] at hm
      have hb : t.symbol id = some b := beq_iff_eq.mp hb
      rw [h.symbol_eq (by omega)] at hb
      exact hnew (List.mem_of_getElem? hb)
    rw [hfind]
    exact apply_ite (Except.map _) _ _ _

end SymbolTable

namespace ValueWalk

def erase (w : ValueWalk) : ValueWalk :=
  { w with symbols := w.symbols.erase, values := w.values.erase }

def payloadByScan (doc : Document) (t : SymbolTable) (i : Nat) :
    Except CompileError (SymbolTable × Payload) :=
  let id := i + 1
  match doc.valueKinds.getD i .invalid with
  | .symbol =>
    match doc.symbolValue id with
    | none => .error .invalidDocument
    | some b => do
      let (t, symbol) ← t.internByScan b
      return (t, .symbol symbol)
  | .integer =>
    match doc.integerValue id with
    | none => .error .invalidDocument
    | some v => .ok (t, .integer v)
  | .boolean =>
    match doc.booleanValue id with
    | none => .error .invalidDocument
    | some v => .ok (t, .boolean v)
  | .timestamp =>
    match doc.timestampValue id with
    | none => .error .invalidDocument
    | some v => .ok (t, .timestamp v)
  | _ => .error .invalidDocument

def stepByScan (doc : Document) (w : ValueWalk) (i : Nat) : Except CompileError ValueWalk := do
  let (symbols, payload) ← payloadByScan doc w.symbols i
  let (values, id) ← w.values.internByScan payload
  return {
    symbols
    values
    valueRemap := w.valueRemap ++ [id]
    symbolRemap := w.symbolRemap ++ [payload.symbolID]
  }

variable {t : SymbolTable}

theorem map_erase_payload {i : Nat} (ht : t.Holds names) (hroom : names.length < t.slots.length) :
    (ValueWalk.payload doc t i).map (fun x => (x.1.erase, x.2.1)) = payloadByScan doc t.erase i := by
  simp only [ValueWalk.payload, payloadByScan]
  cases doc.valueKinds.getD i .invalid
  case symbol =>
    cases doc.symbolValue (i + 1)
    case none => rfl
    case some => exact map_bind_eq (ht.map_erase_intern hroom) fun _ _ => rfl
  case integer => cases doc.integerValue (i + 1) <;> rfl
  case boolean => cases doc.booleanValue (i + 1) <;> rfl
  case timestamp => cases doc.timestampValue (i + 1) <;> rfl
  all_goals rfl

theorem Sound.map_erase_step (h : w.Sound doc names n) (hsymbols : names.length < w.symbols.slots.length)
    (hvalues : n < w.values.slots.length) :
    (ValueWalk.step doc w n).map erase = stepByScan doc w.erase n := by
  refine map_bind_eq (map_erase_payload h.symbols hsymbols) fun ⟨t, payload, text⟩ hp => ?_
  have ⟨names', hn, _, _, _, _, _, htext⟩ := payload_eq_ok h.symbols hp
  have hroom : none ∈ w.values.slots := Probe.none_mem_of_filled (by
    have := h.kinds
    rw [h.values.filled]
    omega)
  refine map_bind_eq ((h.values.mono hn).map_erase_intern (htext ▸ rfl) hroom) fun _ _ => ?_
  cases payload <;> rfl

end ValueWalk

variable {size valueSize count : Nat} {t : SymbolTable} {fields : Schema} {symbols : Interner}

theorem slotSizeFrom_ne_zero {fuel : Nat} (hsize : 0 < size) (hn : n ≤ maxInt32)
    (hfuel : 2 * n ≤ size * 2 ^ fuel) : slotSizeFrom (fuel + 1) size n ≠ 0 := by
  induction fuel generalizing size
  case zero =>
    rw [slotSizeFrom, if_neg (by omega)]
    omega
  case succ fuel ih =>
    rw [slotSizeFrom]
    split
    case isFalse => omega
    case isTrue hlt =>
      have : maxInt32 < maxInt / 8 := by decide
      rw [if_neg (by omega)]
      exact ih (by omega) (by rwa [Nat.mul_assoc, ← Nat.pow_succ'])

theorem slotSize_bounds (hn : n ≤ maxInt32) : slotSize n ≠ 0 ∧ 2 * n ≤ slotSize n := by
  have hne : slotSize n ≠ 0 := slotSizeFrom_ne_zero (by decide) hn (by
    have : maxInt32 ≤ 4 * 2 ^ 62 := by decide
    omega)
  exact ⟨hne, (slotSize_eq hne).2⟩

def lowerFieldByScan (fields : Schema) (symbols : Interner) (s : SymbolTable × List Nat) (i : Nat) :
    Except CompileError (SymbolTable × List Nat) :=
  match fields.name (i + 1) with
  | none => .error .invalidDocument
  | some name =>
    match symbols name with
    | none => .error .invalidSymbols
    | some b =>
      if b = [] then .error .invalidSymbols
      else do
        let (table, id) ← s.1.internByScan b
        return (table, s.2 ++ [id])

theorem map_erase_lowerField {s : SymbolTable × List Nat} {i : Nat} (hs : s.1.Holds names)
    (hroom : names.length < s.1.slots.length) :
    (lowerField fields symbols s i).map (fun s => (s.1.erase, s.2)) =
      lowerFieldByScan fields symbols (s.1.erase, s.2) i := by
  simp only [lowerField, lowerFieldByScan]
  cases fields.name (i + 1)
  case none => rfl
  case some name =>
    cases hn : symbols name
    case none => simp only [hn, Except.map]
    case some b =>
      simp only [hn, apply_ite (Except.map _)]
      split
      case isTrue => rfl
      case isFalse => exact map_bind_eq (hs.map_erase_intern hroom) fun _ _ => rfl

structure CanonicalConstants extends ValueWalk where
  fieldNames : List Nat
  fieldKinds : List ValueKind
  fieldGroups : List FieldGroup
  evidenceKindNames : List Nat
  evidenceStateNames : List Nat
  policyName : Nat
  policyVersion : Nat

def Constants.canonical (c : Constants) : CanonicalConstants where
  toValueWalk := c.toValueWalk.erase
  fieldNames := c.fieldNames
  fieldKinds := c.fieldKinds
  fieldGroups := c.fieldGroups
  evidenceKindNames := c.evidenceKindNames
  evidenceStateNames := c.evidenceStateNames
  policyName := c.policyName
  policyVersion := c.policyVersion

-- The constants as they are found by looking at all symbols and values, without any hash.
def lowerConstantsByScan (doc : Document) (fields : Schema) (symbols : Interner) :
    Except CompileError CanonicalConstants :=
  if doc.valueRefs.length ≠ doc.valueKinds.length then .error .invalidDocument
  else do
    let _ ← addCounts fields.len doc.valueKinds.length
    let (table, fieldNames) ← (List.range fields.len).foldlM (lowerFieldByScan fields symbols)
      (⟨[], [], [], []⟩, [])
    let w ← (List.range doc.valueKinds.length).foldlM (ValueWalk.stepByScan doc)
      ⟨table, ⟨[], [], [], [], [], []⟩, [], []⟩
    let evidenceKindNames ← w.translateCatalogNames doc.evidenceKindNames
      doc.evidenceKindSourceStarts doc.evidenceKindSourceEnds
    let evidenceStateNames ← w.translateCatalogNames doc.evidenceStateNames
      doc.evidenceStateSourceStarts doc.evidenceStateSourceEnds
    match doc.policyMetadata with
    | none => .error .invalidDocument
    | some metadata => do
      let policyName ← w.symbolForValue metadata.name
      let policyVersion ← w.symbolForValue metadata.version
      return {
        w with
        fieldNames
        fieldKinds := fields.kinds
        fieldGroups := fields.groups
        evidenceKindNames
        evidenceStateNames
        policyName
        policyVersion
      }

theorem map_erase_lowerFieldSchema (hsize : fields.len ≤ size) :
    (lowerFieldSchema ⟨[], [], [], List.replicate size none⟩ fields symbols).map
      (fun s => (s.1.erase, s.2)) =
      (List.range fields.len).foldlM (lowerFieldByScan fields symbols) (⟨[], [], [], []⟩, []) :=
  map_foldlM_range (P := FieldsLowered size) fieldsLowered_start fun i s hi hs => by
    have ⟨⟨names, holds, hle⟩, hslots⟩ := hs
    exact ⟨map_erase_lowerField holds (by omega), fun _ h => hs.step h⟩

theorem map_erase_canonicalizeValues (ht : t.Holds names) (hn : names.length ≤ count)
    (hsize : count + doc.valueKinds.length ≤ t.slots.length) (hvalues : doc.valueKinds.length ≤ valueSize) :
    (canonicalizeValues doc t ⟨[], [], [], [], [], List.replicate valueSize none⟩).map
      ValueWalk.erase =
      (List.range doc.valueKinds.length).foldlM (ValueWalk.stepByScan doc)
        ⟨t.erase, ⟨[], [], [], [], [], []⟩, [], []⟩ :=
  map_foldlM_range (P := ValueWalk.Walked doc t count valueSize) (ValueWalk.walked_start ht hn)
    fun i w hi hw => by
      have ⟨⟨names, sound, hcount⟩, hsymbols, hslots⟩ := hw
      exact ⟨sound.map_erase_step (by omega) (by omega), fun _ hs => hw.step hs⟩

theorem map_canonical_lowerConstants (doc : Document) (fields : Schema) (symbols : Interner) :
    (lowerConstants doc fields symbols).map Constants.canonical =
      lowerConstantsByScan doc fields symbols := by
  simp only [lowerConstants, lowerConstantsByScan]
  split
  case isTrue => rfl
  case isFalse =>
    cases hcap : addCounts fields.len doc.valueKinds.length
    case error => rfl
    case ok symCap =>
      obtain ⟨hsum, he⟩ := of_guard hcap
      cases he
      have hmax : fields.len + doc.valueKinds.length ≤ maxInt32 := by omega
      obtain ⟨hne, hsize⟩ := slotSize_bounds hmax
      obtain ⟨hne', hsize'⟩ := slotSize_bounds (n := doc.valueKinds.length) (by omega)
      simp only [ok_bind, if_neg (not_or.mpr ⟨hne, hne'⟩)]
      refine map_bind_eq (map_erase_lowerFieldSchema (by omega)) fun found ht => ?_
      obtain ⟨t, fieldNames⟩ := found
      obtain ⟨⟨names, holds, hlen⟩, hslots⟩ := fieldsLowered_lowerFieldSchema ht
      refine map_bind_eq (map_erase_canonicalizeValues holds hlen (by omega) (by omega)) fun w hw => ?_
      obtain ⟨names', sound, hnames⟩ := (ValueWalk.walked_canonicalizeValues holds hlen hw).sound
      refine map_bind_eq (e := id) (congrFun Except.map_id _) fun kinds _ => ?_
      refine map_bind_eq (e := id) (congrFun Except.map_id _) fun states _ => ?_
      cases doc.policyMetadata
      case none => rfl
      case some metadata =>
        refine map_bind_eq (e := id) (congrFun Except.map_id _) fun name _ => ?_
        refine map_bind_eq (e := id) (congrFun Except.map_id _) fun version _ => ?_
        have hcount : w.symbols.starts.length = names'.length := by
          rw [sound.symbols.starts, Ragged.length_starts]
        obtain ⟨slots, hslots, _⟩ := freezeSymbolSlots_ok sound.symbols (slotSize_bounds (by omega)).1
        rw [dif_neg (by omega), hslots]
        rfl

theorem ValueWalk.Sound.literalOf (h : w.Sound doc names n) {i : Nat} (hi : i < n) :
    ∃ x, doc.literalOf (i + 1) = some x ∧ w.literalOf (w.valueRemap.getD i 0) = some x := by
  have ⟨payload, hp, hs, _⟩ := h.literal i hi
  have ⟨x, hx, hpx⟩ := hp.literalOf
  exact ⟨x, hx, (hs.literalOf h.symbols).trans hpx⟩

theorem ValueWalk.Sound.remap_eq_iff (h : w.Sound doc names n) {i j : Nat} (hi : i < n) (hj : j < n) :
    w.valueRemap.getD i 0 = w.valueRemap.getD j 0 ↔ doc.literalOf (i + 1) = doc.literalOf (j + 1) := by
  constructor
  case mp =>
    intro he
    have ⟨x, hx, hw⟩ := h.literalOf hi
    have ⟨y, hy, hw'⟩ := h.literalOf hj
    rw [hx, hy, ← hw, ← hw', he]
  case mpr =>
    intro he
    have ⟨p, hp, hs, _⟩ := h.literal i hi
    have ⟨p', hp', hs', _⟩ := h.literal j hj
    have ⟨x, hx, hpx⟩ := hp.literalOf
    have ⟨y, hy, hpy⟩ := hp'.literalOf
    rw [hx, hy, Option.some.injEq] at he
    have := Payload.literal_inj h.symbols.nodup hpx (he ▸ hpy)
    exact h.values.unique _ _ p hs (this ▸ hs')

-- The constants are found without hashes, values read as the literals for which they stand, and equal
-- literals have the same value.
theorem constants_canonical (doc : Document) (fields : Schema) (symbols : Interner) :
    (lowerConstants doc fields symbols).map Constants.canonical =
      lowerConstantsByScan doc fields symbols ∧
    ∀ c, lowerConstants doc fields symbols = .ok c →
      (∀ i < doc.valueKinds.length, ∃ x, doc.literalOf (i + 1) = some x ∧
        c.literalOf (c.valueRemap.getD i 0) = some x) ∧
      ∀ i < doc.valueKinds.length, ∀ j < doc.valueKinds.length,
        (c.valueRemap.getD i 0 = c.valueRemap.getD j 0 ↔
          doc.literalOf (i + 1) = doc.literalOf (j + 1)) := by
  refine ⟨map_canonical_lowerConstants doc fields symbols, fun c hc => ?_⟩
  have ⟨names, parts⟩ := lowerConstants_eq_ok hc
  exact ⟨fun i hi => parts.literals.literalOf hi, fun i hi j hj => parts.literals.remap_eq_iff hi hj⟩

def repeatedPolicy : Document :=
  { nestedPolicy with symbolBytes := bytes "ppermit", symbolStarts := [0, 0, 1] }

def repeatedConstants : Constants :=
  (lowerConstants repeatedPolicy flagSchema flagSymbols).toOption.get (by decide +kernel)

theorem constants_canonical_repeated :
    repeatedConstants.valueRemap.getD 0 0 = repeatedConstants.valueRemap.getD 1 0 ∧
      repeatedConstants.valueRemap.getD 0 0 ≠ repeatedConstants.valueRemap.getD 2 0 := by
  have ⟨_, h⟩ := (constants_canonical repeatedPolicy flagSchema flagSymbols).2 repeatedConstants
    (eq_ok_of_toOption _)
  refine ⟨(h 0 (by decide) 1 (by decide)).mpr (by decide), fun he => ?_⟩
  exact absurd ((h 0 (by decide) 2 (by decide)).mp he) (by decide)

end NornRune
