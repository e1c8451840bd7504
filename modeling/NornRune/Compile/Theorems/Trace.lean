import NornRune.Compile.Theorems.Order
import NornRune.Compile.Theorems.Tree
import NornRune.Execution.Theorems.Kept

open Checked

-- From the instructions of a program back to the nodes that they were made for.
namespace NornRune

-- How the instructions of a program came about: `l` is the table that the walk over the document has
-- left, and `f` takes the instructions in it that are live to those of the program.
structure Traced (doc : Document) (w : ValueWalk) (t : InstructionTable) (nodeRoots : List RootFlags)
    (l : Lowering) (order : List Nat) (live : List Bool) (f : Nat → Nat) : Prop where
  sound : Lowering.Sound w doc nodeRoots l order
  flags : markRootFlags doc doc.len = .ok nodeRoots
  roots : ∀ root ∈ collectRoots doc, root ∈ order
  marked : LiveFrom l.rows 0 live
  image : Image l.rows t.rows (fun id => live.getD (id - 1) false) f
  used : AllUsed t.rows
  node : ∀ n, doc.nodeInRange n → n ∈ order ∧ t.nodeMap[n - 1]? =
    some (if live.getD (l.canon n - 1) false then [f (l.canon n)] else (l.flat n).map f)

theorem nodeInstructions_eq_ok {live : List Bool} {canonical : Nat} {flat ids : List Nat}
    (h : nodeInstructions live canonical flat = .ok ids) : canonical ≠ 0 ∧
      ids = if live.getD (canonical - 1) false then [toFinal live canonical]
        else flat.map (toFinal live) := by
  have ⟨hc, h⟩ := of_guard h
  rw [not_or] at hc
  refine ⟨hc.1, ?_⟩
  split at h
  case isTrue hf =>
    cases h
    rw [if_pos (live_of_toFinal hf)]
  case isFalse hf =>
    have ⟨_, h⟩ := of_guard h
    rw [if_neg fun hl => hf (toFinal_ne_zero hc.1 hl)]
    exact eq_map_of_mapM_eq_ok h fun _ _ _ ho => (finalOperand_eq_ok ho).1

section Traced

variable {doc : Document} {fields : Schema} {symbols : Interner} {c : Constants}
  {t₀ : InstructionTable} {t : ScheduledTable} {s : Semantics} {slots : Slots} {indexes : Indexes}
  {p : Program}

theorem Lowered.traced (low : Lowered doc fields symbols c t₀ t s slots indexes p) :
    ∃ nodeRoots l order live f,
      Traced doc c.toValueWalk t.toInstructionTable nodeRoots l order live f := by
  have ⟨nodeRoots, l, order, hflags, sound, hroots, hcompact⟩ :=
    lowerCandidates_eq_ok (Document.validated low.valid) low.candidates
  have ⟨live, compacted, _, hnodes⟩ := compactInstructions_eq_ok sound.ordered hcompact
  have ⟨f, reordered⟩ := scheduleInstructions_eq_ok (compacted.before sound.ordered) low.schedule
  have hcomposite : ∀ row ∈ l.rows, row.operands ≠ [] → row.opcode.Composite := by
    intro row hm hne
    have ⟨i, hi⟩ := List.mem_iff_getElem?.mp hm
    have ⟨hnode, hcanon, _⟩ := sound.origin i row hi
    have ⟨row', _, hrow', made, _⟩ := sound.made row.node hnode
    rw [hcanon, Nat.add_sub_cancel, hi, Option.some.injEq] at hrow'
    subst hrow'
    by_contra hleaf
    exact hne (made.operands_of_leaf hleaf)
  refine ⟨nodeRoots, l, order, live, f ∘ toFinal live, {
    sound := sound
    flags := hflags
    roots := hroots
    marked := compacted.marked
    image := compacted.image.trans reordered.image
    used := reordered.allUsed (compacted.allUsed hcomposite)
    node := fun n hn => ?_ }⟩
  have hlt := (Lowering.nodeInRange_iff.mp hn).2
  have ⟨ids, hids, hnode⟩ := hnodes (n - 1) hlt
  have ⟨h0, he⟩ := nodeInstructions_eq_ok hnode
  refine ⟨by_contra fun hno => h0 (sound.unmade n hn hno), ?_⟩
  rw [reordered.nodeMap, List.getElem?_map, hids, Option.map_some, he]
  change some (List.map f (if live.getD (l.canon n - 1) false then _ else _)) = _
  split
  · rfl
  · exact congrArg some (List.map_map ..)

end Traced

namespace Traced

variable {doc : Document} {w : ValueWalk} {t : InstructionTable} {nodeRoots : List RootFlags}
  {l : Lowering} {order : List Nat} {live : List Bool} {f : Nat → Nat}

variable (h : Traced doc w t nodeRoots l order live f)
include h

theorem getLsbD_rootFlags {n : Nat} (hn : n ∈ order) {b : Nat}
    (hb : (nodeRoots.getD (n - 1) 0#8).getLsbD b) :
    ∃ row, l.rows[l.canon n - 1]? = some row ∧ row.rootFlags.getLsbD b := by
  have ⟨row, h0, hrow, _⟩ := h.sound.made n hn
  refine ⟨row, hrow, (h.sound.flags _ row hrow b).mpr ⟨n, hn, ?_, hb⟩⟩
  omega

theorem root {n : Nat} (hn : n ∈ order) {b : Nat} (hb : (nodeRoots.getD (n - 1) 0#8).getLsbD b)
    {id : Nat} (hid : rootInstruction t doc.nodeKinds.length n = .ok id) :
    live.getD (l.canon n - 1) false ∧ id = f (l.canon n) ∧
      ∃ row, t.rows[id - 1]? = some row ∧ id ≠ 0 ∧ row.rootFlags.getLsbD b := by
  have ⟨row, hrow, hbit⟩ := h.getLsbD_rootFlags hn hb
  have hne : row.rootFlags ≠ 0#8 := by
    intro he
    simp [he] at hbit
  have hlive := h.marked.root _ row hrow hne
  have h0 := (h.sound.canon_le hn).1
  have ⟨_, hnode⟩ := h.node n (h.sound.inRange n hn)
  rw [if_pos hlive] at hnode
  have ⟨_, hid⟩ := of_guard hid
  rw [hnode] at hid
  have ⟨_, hid⟩ := of_guard hid
  cases hid
  have ⟨j, hj, hrow'⟩ := h.image.row _ row hrow (by rwa [Nat.add_sub_cancel])
  rw [Nat.sub_add_cancel (Nat.pos_of_ne_zero h0)] at hj
  refine ⟨hlive, rfl, { row with operands := row.operands.map f }, ?_, by omega, hbit⟩
  rw [hj, Nat.add_sub_cancel, hrow']

theorem origin {j : Nat} {row' : InstructionRow} (hj : t.rows[j]? = some row') :
    ∃ cand, row'.node ∈ order ∧ f (l.canon row'.node) = j + 1 ∧
      live.getD (l.canon row'.node - 1) false ∧ doc.span row'.node = some row'.span ∧
      Made w doc l.canon l.flat row'.node cand ∧
      row'.toCandidate = { cand with operands := cand.operands.map f } := by
  obtain ⟨i, row, hi, hl, hf, rfl⟩ := h.image.origin j row' hj
  have ⟨hnode, hcanon, hspan⟩ := h.sound.origin i row hi
  have ⟨row₁, _, hrow₁, made, _⟩ := h.sound.made row.node hnode
  rw [hcanon, Nat.add_sub_cancel, hi, Option.some.injEq] at hrow₁
  subst hrow₁
  exact ⟨row.toCandidate, hnode, hcanon ▸ hf, hcanon ▸ hl, hspan, made, rfl⟩

end Traced

structure Lineage (doc : Document) (fields : Schema) (symbols : Interner) (p : Program) where
  {c : Constants} {t₀ : InstructionTable} {t : ScheduledTable} {s : Semantics} {slots : Slots}
  {indexes : Indexes} {names : List (List Byte)} {nodeRoots : List RootFlags} {l : Lowering}
  {order : List Nat} {live : List Bool} {f : Nat → Nat}
  low : Lowered doc fields symbols c t₀ t s slots indexes p
  parts : ConstantParts doc fields c names
  tr : Traced doc c.toValueWalk t.toInstructionTable nodeRoots l order live f

namespace Lineage

variable {doc : Document} {fields : Schema} {symbols : Interner} {p : Program}

theorem of_lower (h : lower doc fields symbols = .ok p) : Nonempty (Lineage doc fields symbols p) :=
  have ⟨_, _, _, _, _, _, low⟩ := lower_eq_ok h
  have ⟨_, parts⟩ := lowerConstants_eq_ok low.constants
  have ⟨_, _, _, _, _, tr⟩ := low.traced
  ⟨⟨low, parts, tr⟩⟩

variable (h : Lineage doc fields symbols p)
include h

theorem named : p.Named h.names :=
  h.low.columns.named h.parts.holds

theorem length_opcodes : p.opcodes.length = h.t.rows.length := by
  rw [h.low.columns.opcodes, List.length_map]

end Lineage
end NornRune
