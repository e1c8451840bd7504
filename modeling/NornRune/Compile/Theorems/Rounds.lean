import NornRune.Compile.Index
import NornRune.Compile.Theorems.Traversal

-- The loops of the validator and of the lowerer come to an end within the rounds that they are given:
-- what they would be stuck with does not matter.
open Checked

namespace NornRune

open Document (Color VisitFrame)

namespace Document

variable {d : Document} {colors : List Color} {frame : VisitFrame} {stack : List VisitFrame} {node : Nat}

-- The edges to be followed and the nodes to be left, from the nodes on the stack and from white ones.
def remaining (d : Document) (colors : List Color) (stack : List VisitFrame) : Nat :=
  Loop.pending (· == .white) (fun i => d.graphEdgeCount (i + 1) + 1) 0 colors +
    (stack.map fun frame => d.graphEdgeCount frame.node - frame.next + 1).sum

theorem remaining_follow (h : frame.next < d.graphEdgeCount frame.node) :
    d.remaining colors ({ frame with next := frame.next + 1 } :: stack) <
      d.remaining colors (frame :: stack) := by
  simp only [remaining, List.map_cons, List.sum_cons]
  omega

theorem remaining_enter (h : colors[node - 1]? = some .white) :
    d.remaining (colors.set (node - 1) .gray) (⟨node, 0⟩ :: stack) = d.remaining colors stack := by
  have hset := @Loop.pending_set _ (· == Color.white) (fun i => d.graphEdgeCount (i + 1) + 1) colors
    .gray 0 (node - 1) rfl
  simp only [h, Option.any_some, beq_self_eq_true, if_true, Nat.zero_add, graphEdgeCount,
    Nat.add_sub_cancel] at hset
  simp only [remaining, graphEdgeCount, List.map_cons, List.sum_cons, Nat.sub_zero,
    Nat.add_sub_cancel, ← hset]
  omega

theorem remaining_leave :
    d.remaining (colors.set (node - 1) .black) stack < d.remaining colors (frame :: stack) := by
  have hset := @Loop.pending_set _ (· == Color.white) (fun i => d.graphEdgeCount (i + 1) + 1) colors
    .black 0 (node - 1) rfl
  simp only [remaining, List.map_cons, List.sum_cons, ← hset]
  omega

theorem remaining_root (hlen : colors.length = d.nodeKinds.length) (h : d.nodeInRange node) :
    d.remaining (colors.set (node - 1) .gray) [⟨node, 0⟩] < d.walkRounds + 1 := by
  have hlt := (Lowering.nodeInRange_iff.mp h).2
  have hwhite : (colors.set (node - 1) .white)[node - 1]? = some .white :=
    List.getElem?_set_self (hlen ▸ hlt)
  have henter := @remaining_enter d _ [] _ hwhite
  have hle := @Loop.pending_le _ (· == Color.white) (fun i => d.graphEdgeCount (i + 1) + 1)
    (colors.set (node - 1) .white) 0
  rw [List.set_set] at henter
  rw [List.length_set, hlen, ← List.range_eq_range'] at hle
  rw [henter]
  exact Nat.lt_succ_of_lt (Nat.lt_succ_of_le hle)

theorem walkStep_remaining {reachable : Bool} {s s' : Walk × List VisitFrame}
    (h : d.walkStep reachable s = .inl s') : d.remaining s'.1.colors s'.2 < d.remaining s.1.colors s.2 := by
  revert h
  fun_cases walkStep d reachable s
  all_goals rintro ⟨⟩
  case case6 => exact remaining_leave
  case case5 hnext _ _ _ hw =>
    refine (remaining_enter ?_).trans_lt (remaining_follow hnext)
    exact getElem?_of_getD (by rintro ⟨⟩) hw
  all_goals exact remaining_follow (by assumption)

theorem walkGraph_eq {w : Walk} (hlen : w.colors.length = d.nodeKinds.length) (stuck : Walk)
    (reachable : Bool) (root : Nat) :
    d.walkGraph reachable w root =
      if !d.nodeInRange root || d.nodeUnsafe (root - 1) || w.color root != .white then w
      else Loop.run stuck (d.walkStep reachable) (d.walkRounds + 1)
        (w.enter reachable root, [⟨root, 0⟩]) := by
  unfold walkGraph
  split
  case isTrue => rfl
  case isFalse hr =>
    simp only [Bool.or_eq_true, not_or, Bool.not_eq_true', Bool.not_eq_false] at hr
    exact Loop.run_eq_of_measure stuck (P := fun _ => True) (fun s => d.remaining s.1.colors s.2)
      (fun _ _ _ hs => ⟨trivial, walkStep_remaining hs⟩) trivial (remaining_root hlen hr.1.1)

end Document

theorem edgeCount_eq {doc : Document} {node count : Nat} (h : edgeCount doc node = .ok count) :
    doc.graphEdgeCount node = count := by
  cases hk : doc.kind node
  case none =>
    rw [edgeCount, hk] at h
    cases h
  case some kind =>
    obtain ⟨i, hi, hkind⟩ := Option.bind_eq_some_iff.mp hk
    obtain ⟨_, hnode⟩ := Option.ite_none_left_eq_some.mp hi
    cases hnode
    rw [Document.graphEdgeCount, List.getD_eq_getElem?_getD, hkind, Option.getD_some]
    cases kind
    all_goals simp only [edgeCount, hk] at h
    case all | any =>
      split at h
      case h_1 => cases h
      case h_2 start _ hr =>
        cases h
        obtain ⟨ref, hp, hr⟩ := Option.bind_eq_some_iff.mp hr
        obtain ⟨_, _, hr⟩ := Option.bind_eq_some_iff.mp hr
        obtain ⟨_, hcount, hr⟩ := Option.bind_eq_some_iff.mp hr
        obtain ⟨_, hr⟩ := Option.ite_none_left_eq_some.mp hr
        cases hr
        simp only [Document.payload, hi, hkind, Option.bind_eq_bind, Option.bind_some, NodeKind.group,
          if_true] at hp
        simp [hp, hcount]
    all_goals
      cases h
      rfl

theorem lowerStep_remaining {w : ValueWalk} {doc : Document} {nodeRoots : List RootFlags}
    {s s' : Lowering × List VisitFrame} (h : lowerStep w doc nodeRoots s = .inl s') :
    doc.remaining s'.1.nodeState s'.2 < doc.remaining s.1.nodeState s.2 := by
  revert h
  fun_cases lowerStep w doc nodeRoots s
  all_goals rintro ⟨⟩
  case case5 hcount hnext _ _ _ _ => exact Document.remaining_follow (edgeCount_eq hcount ▸ hnext)
  case case6 hcount hnext _ _ _ hw =>
    refine (Document.remaining_enter (getElem?_of_getD (by rintro ⟨⟩) hw)).trans_lt ?_
    exact Document.remaining_follow (edgeCount_eq hcount ▸ hnext)
  case case8 hi => exact Lowering.nodeState_intern hi ▸ Document.remaining_leave

theorem lowerRoot_eq (w : ValueWalk) {doc : Document} (nodeRoots : List RootFlags) {l : Lowering}
    (hlen : l.nodeState.length = doc.len) {root : Nat} (hroot : doc.nodeInRange root)
    (stuck : Except CompileError Lowering) :
    lowerRoot w doc nodeRoots l root =
      if l.nodeState.getD (root - 1) .white = .black then .ok l
      else Loop.run stuck (lowerStep w doc nodeRoots) (doc.walkRounds + 1)
        ({ l with nodeState := l.nodeState.set (root - 1) .gray }, [⟨root, 0⟩]) := by
  unfold lowerRoot
  split
  case isTrue => rfl
  case isFalse =>
    exact Loop.run_eq_of_measure stuck (P := fun _ => True) (fun s => doc.remaining s.1.nodeState s.2)
      (fun _ _ _ hs => ⟨trivial, lowerStep_remaining hs⟩) trivial (Document.remaining_root hlen hroot)

namespace IndexWalk

variable {c : Constants} {rows : List InstructionRow}

-- Each instruction is put on the stack by the conjunctions that have it as an operand, once each.
def remaining (rows : List InstructionRow) (s : IndexWalk × List Nat) : Nat :=
  Loop.pending (!·) (fun i => (rows[i]?).elim 0 (·.operands.length)) 0 s.1.visited + s.2.length

theorem appendSelectorValues_eq_ok {w w' : IndexWalk} {row : InstructionRow}
    (h : w.appendSelectorValues c row = .ok w') :
    w'.visited = w.visited ∧ ∃ x, w'.fields = w.fields.set (row.field - 1) x := by
  unfold appendSelectorValues at h
  simp only at h
  split at h
  case h_1 =>
    have ⟨_, h⟩ := of_guard h
    have ⟨_, _, h⟩ := of_bind h
    have ⟨_, h⟩ := of_guard h
    have ⟨_, h⟩ := of_guard h
    cases h
    exact ⟨rfl, _, rfl⟩
  case h_2 =>
    have ⟨_, _, h⟩ := of_bind h
    cases h
    exact ⟨rfl, _, rfl⟩

theorem visit_eq_ok {w w' : IndexWalk} {row : InstructionRow} {i : Nat} {operands : List Nat}
    (h : w.visit c row i = .ok (w', operands)) :
    w'.visited = w.visited.set i true ∧ operands.length ≤ row.operands.length ∧
      (w'.fields = w.fields ∨ c.selectorFieldKind row.field = .ok .symbol ∧
        ∃ x, w'.fields = w.fields.set (row.field - 1) x) := by
  simp only [visit] at h
  split at h
  case h_1 | h_4 =>
    cases h
    simp
  all_goals
    obtain ⟨kind, hk, h⟩ := of_bind h
    split at h
    case isTrue =>
      cases h
      simp
    case isFalse hs =>
      obtain ⟨_, ha, h⟩ := of_bind h
      cases h
      obtain ⟨hv, hf⟩ := appendSelectorValues_eq_ok ha
      exact ⟨hv, Nat.zero_le _, .inr ⟨not_not.mp hs ▸ hk, hf⟩⟩

theorem step_remaining {s s' : IndexWalk × List Nat} (hlen : s.1.visited.length = rows.length)
    (h : step c rows s = .inl s') :
    s'.1.visited.length = rows.length ∧ remaining rows s' < remaining rows s := by
  revert h
  fun_cases step c rows s
  all_goals rintro ⟨⟩
  case case2 => exact ⟨hlen, Nat.lt_succ_self _⟩
  case case5 w id stack hfresh row hrow w' operands hv =>
    have ⟨hvisited, hle, _⟩ := visit_eq_ok hv
    have hlt : id - 1 < w.visited.length := hlen ▸ (List.getElem?_eq_some_iff.mp hrow).1
    have hset := @Loop.pending_set _ (!·) (fun i => (rows[i]?).elim 0 (·.operands.length))
      w.visited true 0 (id - 1) rfl
    rw [List.getD_eq_getElem _ _ hlt, Bool.not_eq_true] at hfresh
    rw [List.getElem?_eq_getElem hlt, hfresh, Nat.zero_add, hrow] at hset
    simp only [Option.any_some, Bool.not_false, if_true, Option.elim_some] at hset
    refine ⟨by rw [hvisited, List.length_set]; exact hlen, ?_⟩
    simp only [remaining, hvisited, List.length_append, List.length_cons]
    omega

-- Only fields that hold symbols are restricted.
def Selects (c : Constants) (w : IndexWalk) : Prop :=
  ∀ (i : Nat) (values : List Nat), w.fields[i]? = some (.single values) →
    c.fieldKinds[i]? = some .symbol

theorem Selects.visit {w w' : IndexWalk} {row : InstructionRow} {i : Nat} {operands : List Nat}
    (hw : Selects c w) (h : w.visit c row i = .ok (w', operands)) : Selects c w' := by
  intro j values hj
  rcases (visit_eq_ok h).2.2 with he | ⟨hk, x, he⟩
  all_goals rw [he] at hj
  case inl => exact hw j values hj
  case inr =>
    by_cases hne : row.field - 1 = j
    case neg =>
      rw [List.getElem?_set_ne hne] at hj
      exact hw j values hj
    case pos =>
      have ⟨_, hk⟩ := of_guard hk
      split at hk
      case h_1 => cases hk
      case h_2 kind hkind =>
        have ⟨_, hk⟩ := of_check hk
        cases hk
        exact hne ▸ hkind

end IndexWalk

theorem requirementConstraints_eq (c : Constants) (rows : List InstructionRow) (row root : Nat)
    (stuck : Except CompileError IndexWalk) :
    requirementConstraints c rows row root = (do
      let w ← Loop.run stuck (IndexWalk.step c rows) ((rows.map (·.operands.length)).sum + 2)
        (⟨List.replicate rows.length false, List.replicate c.fieldKinds.length .unseen, 0⟩, [root])
      return w.fields.zipIdx.filterMap fun (field, i) =>
        match field with
        | .single values => some ⟨row, i + 1, values⟩
        | _ => none) := by
  have hle := @Loop.pending_le _ (!·) (fun i => (rows[i]?).elim 0 (·.operands.length))
    (List.replicate rows.length false) 0
  have hsum : (List.range rows.length).map (fun i => (rows[i]?).elim 0 (·.operands.length)) =
      rows.map (·.operands.length) := by
    refine List.ext_getElem (by simp) fun i hi _ => ?_
    simp [(by simpa using hi : i < rows.length)]
  rw [List.length_replicate, ← List.range_eq_range', hsum] at hle
  have hstart : IndexWalk.remaining rows (⟨List.replicate rows.length false,
      List.replicate c.fieldKinds.length .unseen, 0⟩, [root]) < (rows.map (·.operands.length)).sum + 2 :=
    Nat.lt_succ_of_le (Nat.succ_le_succ hle)
  unfold requirementConstraints
  congr 1
  exact Loop.run_eq_of_measure stuck (P := fun s => s.1.visited.length = rows.length)
    (IndexWalk.remaining rows) (fun _ _ => IndexWalk.step_remaining) List.length_replicate hstart

theorem symbol_of_requirementConstraints {c : Constants} {rows : List InstructionRow} {row root : Nat}
    {cs : List Constraint} (h : requirementConstraints c rows row root = .ok cs) :
    ∀ k ∈ cs, k.field ≠ 0 ∧ c.fieldKinds[k.field - 1]? = some .symbol := by
  have ⟨w, hw, h⟩ := of_bind h
  cases h
  have hsel : IndexWalk.Selects c w := by
    refine Loop.run_invariant (fun s : IndexWalk × List Nat => IndexWalk.Selects c s.1)
      (fun r : Except CompileError IndexWalk => ∀ w, r = .ok w → IndexWalk.Selects c w)
      (by rintro _ ⟨⟩) ?_ ?_ ?_ w hw
    case refine_1 =>
      intro s s' hs
      fun_cases IndexWalk.step c rows s
      all_goals rintro ⟨⟩
      case case2 => exact hs
      case case5 hv => exact hs.visit hv
    case refine_2 =>
      intro s r hs
      fun_cases IndexWalk.step c rows s
      all_goals rintro ⟨⟩ w ⟨⟩
      exact hs
    case refine_3 =>
      intro i values hi
      simp [List.getElem?_replicate] at hi
  intro k hk
  obtain ⟨⟨field, i⟩, hm, he⟩ := List.mem_filterMap.mp hk
  have hi := List.mk_mem_zipIdx_iff_getElem?.mp hm
  cases field
  case single values =>
    cases he
    exact ⟨Nat.succ_ne_zero i, hsel i values hi⟩
  all_goals cases he

theorem symbol_of_extract {c : Constants} {t : InstructionTable} {roots : List Nat} {cs : List Constraint}
    (h : extractApplicabilityConstraints c t roots = .ok cs) :
    ∀ k ∈ cs, k.field ≠ 0 ∧ c.fieldKinds[k.field - 1]? = some .symbol := by
  have ⟨_, _, h⟩ := of_bind h
  have ⟨constraints, hc, h⟩ := of_bind h
  have ⟨_, h⟩ := of_guard h
  cases h
  intro k hk
  have ⟨ks, hks, hk⟩ := List.mem_flatten.mp hk
  have ⟨_, _, h⟩ := exists_of_mem_mapM hc hks
  exact symbol_of_requirementConstraints h k hk

end NornRune
