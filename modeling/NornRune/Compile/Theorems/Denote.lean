import NornRune.Compile.Instructions
import NornRune.Execution.Row
import NornRune.Lib.Dataflow

namespace NornRune

def Candidate.denote (leaf : Candidate → Lane) (c : Candidate) (v : Nat → Lane) : Lane :=
  match c.opcode with
  | .all => Lane.all (c.operands.map v)
  | .any => Lane.any (c.operands.map v)
  | .not => ((c.operands.map v).headD ⟨.bottom, 0#16⟩).not
  | _ => leaf { c with operands := [] }

variable (leaf : Candidate → Lane)

theorem Candidate.denote_congr (c : Candidate) {v v' : Nat → Lane}
    (h : ∀ o ∈ c.operands, v o = v' o) : c.denote leaf v = c.denote leaf v' := by
  have hm : c.operands.map v = c.operands.map v' := List.map_congr_left h
  cases ho : c.opcode <;> simp only [denote, ho, hm]

theorem Candidate.denote_renumber (c : Candidate) (f : Nat → Nat) (v : Nat → Lane) :
    denote leaf { c with operands := c.operands.map f } v = c.denote leaf (v ∘ f) := by
  cases ho : c.opcode <;> simp only [denote, ho, List.map_map]

def rowSemantics : Dataflow.Semantics InstructionRow Lane where
  operands row := row.operands
  denote row := row.toCandidate.denote leaf
  congr row _ _ h := row.toCandidate.denote_congr leaf h

structure Image (rows rows' : List InstructionRow) (keep : Nat → Prop) (f : Nat → Nat) : Prop where
  row : ∀ (i : Nat) (row : InstructionRow), rows[i]? = some row → keep (i + 1) →
    ∃ j, f (i + 1) = j + 1 ∧ rows'[j]? = some { row with operands := row.operands.map f }
  origin : ∀ (j : Nat) (row' : InstructionRow), rows'[j]? = some row' →
    ∃ (i : Nat) (row : InstructionRow), rows[i]? = some row ∧ keep (i + 1) ∧ f (i + 1) = j + 1 ∧
      row' = { row with operands := row.operands.map f }
  operand : ∀ (i : Nat) (row : InstructionRow), rows[i]? = some row → keep (i + 1) →
    ∀ o ∈ row.operands, keep o

namespace Image

variable {rows rows' rows'' : List InstructionRow} {keep : Nat → Prop} {f f' : Nat → Nat}

theorem trans (h : Image rows rows' keep f) (h' : Image rows' rows'' (fun _ => True) f') :
    Image rows rows'' keep (f' ∘ f) where
  row i row hi hk := by
    have ⟨j, hf, hj⟩ := h.row i row hi hk
    have ⟨k, hf', hk⟩ := h'.row j _ hj trivial
    exact ⟨k, by rw [Function.comp, hf, hf'], by rw [hk, ← List.map_map]⟩
  origin k row'' hk := by
    obtain ⟨j, row', hj, _, hf', rfl⟩ := h'.origin k row'' hk
    obtain ⟨i, row, hi, hkeep, hf, rfl⟩ := h.origin j row' hj
    exact ⟨i, row, hi, hkeep, by rw [Function.comp, hf, hf'], by rw [← List.map_map]⟩
  operand := h.operand

theorem embeds (h : Image rows rows' keep f) :
    Dataflow.Embeds (rowSemantics leaf) rows rows' keep f where
  row i row hi hk :=
    have ⟨j, hf, hj⟩ := h.row i row hi hk
    ⟨j, _, hf, hj, fun v => row.toCandidate.denote_renumber leaf f v⟩
  operand := h.operand

end Image
end NornRune
