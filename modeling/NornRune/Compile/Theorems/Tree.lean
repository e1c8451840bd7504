import NornRune.Compile.Theorems.Leaves
import NornRune.Lib.Reduction
import Mathlib.Data.List.Induction

open Checked

-- The table of instructions means what the expressions of the document mean.
namespace NornRune

namespace Lane

theorem meet_and : Reduction.Meet Lane.and where
  assoc x y z := by simp only [Lane.and, Truth.and_assoc, BitVec.or_assoc]
  comm x y := by simp only [Lane.and, Truth.and_comm x.truth, BitVec.or_comm x.reasons]
  idem x := by simp only [Lane.and, Truth.and_self, BitVec.or_self]

theorem meet_or : Reduction.Meet Lane.or where
  assoc x y z := by simp only [Lane.or, Truth.or_assoc, BitVec.or_assoc]
  comm x y := by simp only [Lane.or, Truth.or_comm x.truth, BitVec.or_comm x.reasons]
  idem x := by simp only [Lane.or, Truth.or_self, BitVec.or_self]

theorem and_top (a : Lane) : a.and ⟨.top, 0#16⟩ = a := by
  simp only [Lane.and, Truth.and_top, BitVec.or_zero]

theorem or_bottom (a : Lane) : a.or ⟨.bottom, 0#16⟩ = a := by
  simp only [Lane.or, Truth.or_bottom, BitVec.or_zero]

def group : NodeKind → List Lane → Lane
  | .all => Lane.all
  | _ => Lane.any

theorem group_flatMap {β : Type} (kind : NodeKind) (f : β → List Lane) (xs : List β) :
    group kind (xs.flatMap f) = group kind (xs.map fun x => group kind (f x)) := by
  cases kind
  case all => exact meet_and.foldl_flatMap and_top f xs
  all_goals exact meet_or.foldl_flatMap or_bottom f xs

theorem group_singleton (kind : NodeKind) (a : Lane) : group kind [a] = a := by
  cases kind
  case all => exact (meet_and.comm _ _).trans (and_top a)
  all_goals exact (meet_or.comm _ _).trans (or_bottom a)

end Lane

theorem Candidate.denote_group (leaf : Candidate → Lane) {kind : NodeKind} (hg : kind.group)
    (operands : List Nat) (v : Nat → Lane) :
    denote leaf { opcode := if kind = .all then .all else .any, operands } v =
      Lane.group kind (operands.map v) := by
  cases kind
  case all | any => rfl
  all_goals cases hg

def leafValue (p : Program) (stateReasons : List Nat) (facts : Row) (c : Candidate) : Lane :=
  match c.instr p with
  | .ok instr => instr.lane stateReasons facts fun _ => ⟨.bottom, 0#16⟩
  | .error _ => ⟨.bottom, 0#16⟩

theorem mapM_eq_some {α β : Type} {f : α → Option β} {g : α → β} {xs : List α}
    (h : ∀ x ∈ xs, f x = some (g x)) : xs.mapM f = some (xs.map g) := by
  induction xs
  case nil => rfl
  case cons x xs ih =>
    have ⟨hx, hxs⟩ := List.forall_mem_cons.mp h
    simp [hx, ih hxs]

def LeavesAgree (doc : Document) (w : ValueWalk) (canon : Nat → Nat) (flat : Nat → List Nat)
    (index : FieldIndex) (symbolID : List Byte → Option Nat) (stateReasons : List Nat) (facts : Row)
    (leaf : Candidate → Lane) : Prop :=
  ∀ node cand, Made w doc canon flat node cand → ¬cand.opcode.Composite →
    ∃ instr, doc.leaf index symbolID node = some instr ∧
      leaf cand = instr.lane stateReasons facts fun _ => ⟨.bottom, 0#16⟩

section Tree

variable {doc : Document} {w : ValueWalk} {nodeRoots : List RootFlags} {l : Lowering}
  {order : List Nat} {index : FieldIndex} {symbolID : List Byte → Option Nat}
  {stateReasons : List Nat} {facts : Row} {leaf : Candidate → Lane} {v : Nat → Lane}

theorem Candidate.denote_of_leaf {c : Candidate} (h : ¬c.opcode.Composite)
    (v : Nat → Lane) : c.denote leaf v = leaf { c with operands := [] } := by
  unfold denote
  split
  case h_1 ho => exact absurd (.inl ho) h
  case h_2 ho => exact absurd (.inr (.inl ho)) h
  case h_3 ho => exact absurd (.inr (.inr ho)) h
  case h_4 => rfl

theorem Made.lane_of_leaf {canon : Nat → Nat} {flat : Nat → List Nat} {node : Nat} {cand : Candidate}
    (made : Made w doc canon flat node cand) (hleaf : ¬cand.opcode.Composite)
    (agree : LeavesAgree doc w canon flat index symbolID stateReasons facts leaf) (depth : Nat) :
    doc.lane index symbolID stateReasons facts (depth + 1) node = some (cand.denote leaf v) := by
  have ⟨instr, hl, hvalue⟩ := agree node cand made hleaf
  have hnil : { cand with operands := [] } = cand := by
    rw [← made.operands_of_leaf hleaf]
  rw [Candidate.denote_of_leaf hleaf, hnil, hvalue]
  have hkind : doc.kind node ≠ some .all ∧ doc.kind node ≠ some .any ∧ doc.kind node ≠ some .not := by
    refine ⟨?_, ?_, ?_⟩
    all_goals
      intro hk
      simp only [Document.leaf, hk] at hl
      cases hl
  unfold Document.lane
  split
  case h_1 hk => exact absurd hk hkind.1
  case h_2 hk => exact absurd hk hkind.2.1
  case h_3 hk => exact absurd hk hkind.2.2
  case h_4 => simp [hl]

theorem Lowering.Sound.group_value (sound : Sound w doc nodeRoots l order)
    (hv : Dataflow.Solves (rowSemantics leaf) l.rows v) {n : Nat}
    (hn : n ∈ order) {kind : NodeKind} (hk : doc.kind n = some kind) (hg : kind.group) :
    v (l.canon n) = Lane.group kind ((l.flat n).map v) := by
  have ⟨row, h0, hrow, made, hflat⟩ := sound.made n hn
  have hvalue := hv _ _ hrow
  rw [Nat.sub_add_cancel (Nat.pos_of_ne_zero h0)] at hvalue
  rw [hvalue, hflat kind hk hg]
  change row.toCandidate.denote leaf v = Lane.group kind (row.toCandidate.operands.map v)
  have ⟨children, _, _, he⟩ := made.of_group hk hg
  rw [he]
  exact Candidate.denote_group leaf hg _ v

theorem Lowering.Sound.lane_step (sound : Sound w doc nodeRoots l order)
    (agree : LeavesAgree doc w l.canon l.flat index symbolID stateReasons facts leaf)
    (hv : Dataflow.Solves (rowSemantics leaf) l.rows v) {n depth : Nat} (hn : n ∈ order)
    (hch : ∀ child ∈ doc.children n,
      doc.lane index symbolID stateReasons facts depth child = some (v (l.canon child))) :
    doc.lane index symbolID stateReasons facts (depth + 1) n = some (v (l.canon n)) := by
  have ⟨row, h0, hrow, made, _⟩ := sound.made n hn
  have hvalue := hv _ _ hrow
  rw [Nat.sub_add_cancel (Nat.pos_of_ne_zero h0)] at hvalue
  change v (l.canon n) = row.toCandidate.denote leaf v at hvalue
  rw [hvalue]
  by_cases hleaf : row.toCandidate.opcode.Composite
  case neg => exact made.lane_of_leaf hleaf agree depth
  case pos =>
    rcases made.of_composite hleaf with ⟨kind, children, hk, hg, hc, he⟩ | ⟨child, hk, hc, he⟩
    case inl =>
      rw [doc.children_of_group hk hg hc] at hch
      -- Members that are groups of the same kind were dissolved.
      have hmember : ∀ child ∈ children, Lane.group kind
          ((contribution doc l.canon l.flat kind child).map v) = v (l.canon child) := by
        intro child hm
        unfold contribution
        split
        case isTrue hkc =>
          have hchild := sound.children_mem hn (doc.children_of_group hk hg hc ▸ hm)
          exact (sound.group_value hv hchild hkc hg).symm
        case isFalse => exact Lane.group_singleton kind _
      rw [he, Candidate.denote_group _ hg, List.map_flatMap, Lane.group_flatMap,
        List.map_congr_left hmember]
      cases kind
      case all | any => simp only [Document.lane, hk, hc, Option.bind_eq_bind, Option.bind_some,
        mapM_eq_some hch, Option.pure_def, Lane.group]
      all_goals cases hg
    case inr =>
      rw [doc.children_of_not hk hc] at hch
      have hchild := hch child (List.mem_singleton_self child)
      rw [he]
      simp only [Document.lane, hk, hc, Option.bind_eq_bind, Option.bind_some, hchild, Option.pure_def]
      rfl

theorem Lowering.Sound.lane_of_solves (sound : Sound w doc nodeRoots l order)
    (agree : LeavesAgree doc w l.canon l.flat index symbolID stateReasons facts leaf)
    (hv : Dataflow.Solves (rowSemantics leaf) l.rows v) {n : Nat} (hn : n ∈ order) :
    doc.lane index symbolID stateReasons facts doc.len n = some (v (l.canon n)) := by
  have walked : ∀ (done rest : List Nat), order = done ++ rest → ∀ n ∈ done, ∀ depth,
      done.length ≤ depth → doc.lane index symbolID stateReasons facts depth n =
        some (v (l.canon n)) := by
    intro done
    induction done using List.reverseRecOn
    case nil => exact nofun
    case append_singleton done m ih =>
      intro rest he n hm depth hd
      rw [List.append_assoc, List.singleton_append] at he
      rw [List.length_append, List.length_singleton] at hd
      rcases List.mem_append.mp hm with hm | hm
      case inl => exact ih _ he n hm depth (by omega)
      case inr =>
        obtain rfl := List.mem_singleton.mp hm
        obtain ⟨depth, rfl⟩ : ∃ d, depth = d + 1 := ⟨depth - 1, by omega⟩
        refine sound.lane_step agree hv (he ▸ by simp) fun child hc => ?_
        exact ih _ he child (sound.before done n rest he child hc) depth (by omega)
  refine walked order [] (List.append_nil _).symm n hn doc.len ?_
  have hsub : order ⊆ List.range' 1 doc.len := fun n hn => by
    have := nodeInRange_iff.mp (sound.inRange n hn)
    rw [List.mem_range'_1]
    omega
  simpa using (List.subperm_of_subset sound.nodup hsub).length_le

end Tree

section Program

variable {doc : Document} {fields : Schema} {symbols : Interner} {c : Constants}
  {t₀ : InstructionTable} {t : ScheduledTable} {s : Semantics} {slots : Slots} {indexes : Indexes}
  {p : Program} {names : List (List Byte)} {nodeRoots : List RootFlags} {l : Lowering}
  {order : List Nat} {stateReasons : List Nat} {facts : Row} {v : Nat → Lane}

theorem leavesAgree_of_lowered (low : Lowered doc fields symbols c t₀ t s slots indexes p)
    (named : p.Named names) (parts : ConstantParts doc fields c names) (canon : Nat → Nat)
    (flat : Nat → List Nat) : LeavesAgree doc c.toValueWalk canon flat p.fieldIndex p.lookupSymbol
      stateReasons facts (leafValue p stateReasons facts) := by
  intro node cand made hleaf
  have ⟨instr, hi, hl⟩ := made.leaf low named parts hleaf
  exact ⟨instr, hl, by rw [leafValue, hi]⟩

theorem Lowering.Sound.lane (low : Lowered doc fields symbols c t₀ t s slots indexes p)
    (named : p.Named names) (parts : ConstantParts doc fields c names)
    (sound : Sound c.toValueWalk doc nodeRoots l order)
    (hv : Dataflow.Solves (rowSemantics (leafValue p stateReasons facts)) l.rows v) {n : Nat}
    (hn : n ∈ order) :
    doc.lane p.fieldIndex p.lookupSymbol stateReasons facts doc.len n = some (v (l.canon n)) :=
  sound.lane_of_solves (leavesAgree_of_lowered low named parts l.canon l.flat) hv hn

end Program
end NornRune
