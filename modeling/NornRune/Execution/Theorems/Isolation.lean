import NornRune.Execution.Theorems.Arrangement
import NornRune.Scheduling.Theorems.Merged

open Checked

-- What a request gets depends on the facts that its program reads and on its evidence, and on nothing
-- else in the batch.
namespace NornRune

variable {p : Program} {code : List Instr} {a b : Row} {field : Nat}

namespace Row

def value (row : Row) (kind : ValueKind) (column : Nat) : PredicateValue :=
  match kind with
  | .symbol => { symbol := row.symbol column }
  | .integer => { integer := row.integer column }
  | .boolean => { boolean := row.boolean column }
  | .timestamp => { timestamp := row.timestamp column }
  | _ => {}

def Keeps (p : Program) (field : Nat) (a b : Row) : Prop :=
  a.present field → b.present field ∧ ∀ kind column,
    p.fieldIndex.lookup field = some (kind, column) → a.value kind column = b.value kind column

def SameFact (p : Program) (field : Nat) (a b : Row) : Prop :=
  a.Keeps p field b ∧ b.Keeps p field a

theorem SameFact.present (h : a.SameFact p field b) : a.present field = b.present field :=
  Bool.eq_iff_iff.mpr ⟨fun hp => (h.1 hp).1, fun hp => (h.2 hp).1⟩

end Row

namespace Predicate

variable {q : Predicate}

theorem equals_congr {kind : ValueKind} {column : Nat} (h : a.value kind column = b.value kind column)
    (v : PredicateValue) : equals kind column a v = equals kind column b v := by
  cases kind <;> simp_all [Row.value, equals]

theorem compares_congr {kind : ValueKind} {column : Nat} {opcode : Opcode}
    (h : a.value kind column = b.value kind column) (v : PredicateValue) :
    compares opcode kind column a v = compares opcode kind column b v := by
  cases kind <;> simp_all [Row.value, compares]

theorem holds_congr (h : a.value q.kind q.column = b.value q.kind q.column) :
    q.holds a = q.holds b := by
  unfold holds
  split
  case h_1 => rfl
  case h_2 v _ => exact compares_congr h v
  case h_3 vs _ => exact congrArg vs.any (funext (equals_congr h))

theorem Resolved.holds_eq {row : Nat} (h : q.Resolved p row) (keeps : a.Keeps p q.field b)
    (hp : a.present q.field) : q.holds a = q.holds b :=
  holds_congr ((keeps hp).2 _ _ (predicateField_eq_ok h.found).lookup)

theorem Resolved.lane_eq {row : Nat} (h : q.Resolved p row) (same : a.SameFact p q.field b) :
    q.lane a = q.lane b := by
  rw [lane, lane, ← same.present]
  cases hp : a.present q.field
  case true => rw [h.holds_eq same.1 hp]
  case false => cases q.opcode <;> rfl

end Predicate

namespace Program

def References (p : Program) (field : Nat) : Prop :=
  ∃ row, (p.opcodes.getD row .invalid).isPredicate ∧ p.fields.getD row 0 = field

def Reads (p : Program) (field : Nat) : Prop :=
  p.References field ∨ field ∈ p.applicabilityIndex.fieldIDs

theorem selector_eq (hv : validExecutionSelector p field) (same : a.SameFact p field b) :
    p.selector a field = p.selector b field := by
  unfold validExecutionSelector at hv
  cases hl : p.fieldIndex.lookup field
  case none =>
    rw [hl] at hv
    cases hv
  case some found =>
    obtain ⟨kind, column⟩ := found
    simp only [hl, Bool.and_eq_true, beq_iff_eq] at hv
    rw [selector, selector, hl, ← same.present]
    cases hp : a.present field
    case false => rfl
    case true =>
      have hvalue := (same.1 hp).2 kind column hl
      rw [hv.1] at hvalue
      exact congrArg (fun v => (v.symbol, true)) hvalue

theorem alike (hc : p.code = .ok code)
    (hs : ∀ field ∈ p.applicabilityIndex.fieldIDs, validExecutionSelector p field)
    (facts : ∀ field, p.Reads field → a.SameFact p field b) (he : a.evidence = b.evidence) :
    Row.Alike p code a b where
  predicate q hq := by
    have ⟨row, _, h⟩ := exists_of_mem_mapM hc hq
    have ⟨ho, resolved⟩ := resolveInstr_eq_ok h
    exact resolved.lane_eq (facts _ (.inl ⟨row, ho, resolved.field.symm⟩))
  selector field hm := selector_eq (hs field hm) (facts field (.inr hm))
  evidence _ := he

end Program

namespace Executor

-- Rows with the same facts and the same evidence get the same result, whatever else is in their
-- batches, wherever they are, and whatever the evaluators did before.
theorem row_isolated {k k' : Kernels} {heap : Heap} {cs cs' : List Call} {dst dst' : ResultBatch}
    {addr : Nat} {batch batch' : Batch} {mode mode' : ExecutionMode} {out out' : ResultBatch}
    (h : (calls k heap cs).outcome k heap dst addr batch mode = .returned out)
    (h' : (calls k' heap cs').outcome k' heap dst' addr batch' mode' = .returned out')
    {r r' : Nat} (hr : r < batch.rows) (hr' : r' < batch'.rows)
    (facts : ∀ field, (heap addr).Reads field →
      (batch.row r).SameFact (heap addr) field (batch'.row r'))
    (evidence : batch.rowEvidence r = batch'.rowEvidence r') :
    out.outcomeIDs[r]? = out'.outcomeIDs[r']? ∧ out.rowEdges r = out'.rowEdges r' := by
  rw [outcome_eq (cached_calls ..)] at h h'
  have ⟨_, reasons, rs, checked, _, hreasons, hrs, hout⟩ := evaluate_eq_returned h
  have ⟨_, _, rs', checked', _, hreasons', hrs', hout'⟩ := evaluate_eq_returned h'
  obtain rfl := Option.some.inj (hreasons.symm.trans hreasons')
  have ⟨code, hc, hlen, hrow⟩ := evalRows_eq_ok hrs
  have ⟨_, hc', hlen', hrow'⟩ := evalRows_eq_ok hrs'
  obtain rfl := Except.ok.inj (hc.symm.trans hc')
  have hsame := @evalRow_congr _ reasons _ _ _ hc (Program.alike hc checked.selectors facts evidence)
  rw [hrow r (hlen ▸ hr), hrow' r' (hlen' ▸ hr')] at hsame
  have hget : rs[r]? = some rs[r] := List.getElem?_eq_getElem _
  have hget' : rs'[r']? = some rs[r] := by
    rw [Except.ok.inj hsame]
    exact List.getElem?_eq_getElem _
  rw [hout, hout', ResultBatch.getElem?_outcomeIDs_ofRows, ResultBatch.getElem?_outcomeIDs_ofRows, hget,
    hget', ResultBatch.rowEdges_ofRows (bounded_evalRows checked hrs) hget,
    ResultBatch.rowEdges_ofRows (bounded_evalRows checked' hrs') hget']
  exact ⟨rfl, rfl⟩

theorem sameFact_alternating {field : Nat} (h : Scheduler.definedField.Reads field) :
    ((Scheduler.alternating 1).row 0).SameFact Scheduler.definedField field
      ((Scheduler.alternating 3).row 2) := by
  rcases h with ⟨row, hrow, rfl⟩ | h
  case inr => cases h
  cases row
  case succ => cases hrow
  refine ⟨fun _ => ⟨rfl, fun _ _ hl => ?_⟩, fun _ => ⟨rfl, fun _ _ hl => ?_⟩⟩
  all_goals
    cases hl
    rfl

theorem row_isolated_alternating :
    ∃ out out', zero.outcome .portable (fun _ => Scheduler.definedField) .empty 0
        (Scheduler.alternating 1) .auto = .returned out ∧
      zero.outcome .portable (fun _ => Scheduler.definedField) .empty 0
        (Scheduler.alternating 3) .auto = .returned out' ∧
      out.outcomeIDs[0]? = out'.outcomeIDs[2]? ∧ out.rowEdges 0 = out'.rowEdges 2 := by
  have h : (calls .portable (fun _ => Scheduler.definedField) []).outcome .portable
      (fun _ => Scheduler.definedField) .empty 0 (Scheduler.alternating 1) .auto = .returned
      (.ofRows [⟨1, [1], [⟨1, 1, 1, 0, 1⟩], [], [], []⟩]) := by
    rw [outcome_eq (cached_calls ..)]
    decide +kernel
  have h' : (calls .portable (fun _ => Scheduler.definedField) []).outcome .portable
      (fun _ => Scheduler.definedField) .empty 0 (Scheduler.alternating 3) .auto = .returned
      (.ofRows [⟨1, [1], [⟨1, 1, 1, 0, 1⟩], [], [], []⟩, ⟨0, [], [], [], [], []⟩,
        ⟨1, [1], [⟨1, 1, 1, 0, 1⟩], [], [], []⟩]) := by
    rw [outcome_eq (cached_calls ..)]
    decide +kernel
  exact ⟨_, _, h, h', row_isolated h h' (by decide) (by decide) (fun _ => sameFact_alternating) rfl⟩

-- The index leaves out the requirement wherever a field is set that no instruction looks at.
def selecting : Program :=
  { Scheduler.definedField with
    fieldKinds := [.boolean, .symbol]
    fieldIndex := ⟨[.boolean, .symbol], [0, 0],
      fun kind => if kind = .boolean ∨ kind = .symbol then 1 else 0, by decide⟩
    applicabilityIndex := ⟨[2], [0], [1], [0#64], [1], [0#64], [1#64], 1, 1⟩ }

def selected (present : Bitplane.Word) : Batch :=
  { Program.oneSymbol with
    booleanValues := [0#64]
    presenceMasks := [1#64, present] }

theorem unreferenced_field_observed :
    (∀ field, selecting.References field →
      ((selected 0#64).row 0).SameFact selecting field ((selected 1#64).row 0)) ∧
    (selected 0#64).rowEvidence 0 = (selected 1#64).rowEvidence 0 ∧
    zero.outcome .portable (fun _ => selecting) .empty 0 (selected 0#64) .auto =
      .returned (.ofRows [⟨1, [1], [⟨1, 1, 1, 0, 1⟩], [], [], []⟩]) ∧
    zero.outcome .portable (fun _ => selecting) .empty 0 (selected 1#64) .auto =
      .returned (.ofRows [⟨0, [], [], [], [], []⟩]) := by
  refine ⟨fun field hf => ?_, rfl, ?_, ?_⟩
  case refine_1 =>
    obtain ⟨row, hrow, rfl⟩ := hf
    cases row
    case succ => cases hrow
    exact ⟨fun _ => ⟨rfl, fun _ _ _ => rfl⟩, fun _ => ⟨rfl, fun _ _ _ => rfl⟩⟩
  all_goals
    rw [outcome_eq (cached_zero _)]
    decide +kernel

end Executor
end NornRune
