import NornRune.Lib.Ragged
import NornRune.Compile.Theorems.Valid
import NornRune.Compile.Instructions

open Checked

-- The walk over the expressions of a document that makes the instructions.
namespace NornRune

def Document.children (doc : Document) (node : Nat) : List Nat :=
  match doc.kind node with
  | some .not => (doc.notChild node).toList
  | some .all | some .any => (doc.groupChildren node).getD []
  | _ => []

variable {doc : Document} {fields : Schema}

theorem Document.children_of_group {node : Nat} {kind : NodeKind} {children : List Nat}
    (hk : doc.kind node = some kind) (hg : kind.group) (hc : doc.groupChildren node = some children) :
    doc.children node = children := by
  cases kind
  case all | any => simp only [Document.children, hk, hc, Option.getD_some]
  all_goals cases hg

theorem Document.children_of_not {node child : Nat} (hk : doc.kind node = some .not)
    (hc : doc.notChild node = some child) : doc.children node = [child] := by
  simp only [Document.children, hk, hc, Option.toList_some]

def contribution (doc : Document) (canon : Nat → Nat) (flat : Nat → List Nat) (kind : NodeKind)
    (child : Nat) : List Nat :=
  if doc.kind child = some kind then flat child else [canon child]

inductive Made (w : ValueWalk) (doc : Document) (canon : Nat → Nat) (flat : Nat → List Nat)
    (node : Nat) : Candidate → Prop
  | boolean {value v : Nat} (kind : doc.kind node = some .boolean)
      (literal : doc.boolean node = some value) (canonical : w.canonicalValue value = .ok v) :
      Made w doc canon flat node { opcode := .boolean, value := v }
  | listed {field value : Nat} {values list : List Nat} (kind : doc.kind node = some .compare)
      (compare : doc.compare node = some (field, .in, value))
      (literals : doc.inValues node = some values)
      (canonical : values.mapM w.canonicalValue = .ok list) :
      Made w doc canon flat node { opcode := .in, field, list }
  | single {field value v : Nat} {op : CompareOp} {opcode : Opcode}
      (kind : doc.kind node = some .compare) (compare : doc.compare node = some (field, op, value))
      (operation : Lowering.compareOpcode op = some opcode) (other : op ≠ .in)
      (given : value ≠ 0) (canonical : w.canonicalValue value = .ok v) :
      Made w doc canon flat node { opcode, field, value := v }
  | bare {field : Nat} {op : CompareOp} {opcode : Opcode}
      (kind : doc.kind node = some .compare) (compare : doc.compare node = some (field, op, 0))
      (operation : Lowering.compareOpcode op = some opcode) (other : op ≠ .in) :
      Made w doc canon flat node { opcode, field }
  | group {kind : NodeKind} {children : List Nat} (kind_eq : doc.kind node = some kind)
      (isGroup : kind.group) (children_eq : doc.groupChildren node = some children)
      (nonempty : ∀ child ∈ children, contribution doc canon flat kind child ≠ []) :
      Made w doc canon flat node {
        opcode := if kind = .all then .all else .any
        operands := children.flatMap (contribution doc canon flat kind)
      }
  | not {child : Nat} (kind : doc.kind node = some .not) (child_eq : doc.notChild node = some child) :
      Made w doc canon flat node { opcode := .not, operands := [canon child] }
  | evidence {m : EvidenceMatch} {subject scope timing : Nat} (kind : doc.kind node = some .evidence)
      (required : doc.evidenceMatch node = some m)
      (subject_eq : w.optionalSymbolForValue m.subject = .ok subject)
      (scope_eq : w.optionalSymbolForValue m.scope = .ok scope)
      (timing_eq : w.optionalSymbolForValue m.timing = .ok timing) :
      Made w doc canon flat node {
        opcode := .evidence
        evidenceKind := m.kind
        evidenceState := m.state
        evidenceSubject := subject
        evidenceScope := scope
        evidenceTiming := timing
      }

section Made

variable {w : ValueWalk} {doc : Document} {canon canon' : Nat → Nat} {flat flat' : Nat → List Nat}
  {node : Nat} {c : Candidate} {kind : NodeKind}

theorem contribution_congr {child : Nat} (hc : canon child = canon' child)
    (hf : flat child = flat' child) :
    contribution doc canon flat kind child = contribution doc canon' flat' kind child := by
  rw [contribution, contribution, hc, hf]

theorem Made.of_group (h : Made w doc canon flat node c) (hk : doc.kind node = some kind)
    (hg : kind.group) :
    ∃ children, doc.groupChildren node = some children ∧
      (∀ child ∈ children, contribution doc canon flat kind child ≠ []) ∧ c = {
        opcode := if kind = .all then .all else .any
        operands := children.flatMap (contribution doc canon flat kind) } := by
  cases h
  case group kind' children hk' _ hc hne =>
    cases hk.symm.trans hk'
    exact ⟨children, hc, hne, rfl⟩
  case boolean hk' _ _ => cases hk.symm.trans hk'; cases hg
  case listed hk' _ _ _ => cases hk.symm.trans hk'; cases hg
  case single hk' _ _ _ _ _ => cases hk.symm.trans hk'; cases hg
  case bare hk' _ _ _ => cases hk.symm.trans hk'; cases hg
  case not hk' _ => cases hk.symm.trans hk'; cases hg
  case evidence hk' _ _ _ _ => cases hk.symm.trans hk'; cases hg

theorem Made.congr (h : Made w doc canon flat node c)
    (hc : ∀ child ∈ doc.children node, canon child = canon' child ∧ flat child = flat' child) :
    Made w doc canon' flat' node c := by
  cases h
  case group kind children hk hg hch hne =>
    rw [doc.children_of_group hk hg hch] at hc
    have heq : ∀ child ∈ children,
        contribution doc canon flat kind child = contribution doc canon' flat' kind child :=
      fun child hm => contribution_congr (hc child hm).1 (hc child hm).2
    rw [List.flatMap_congr heq]
    exact .group hk hg hch fun child hm => heq child hm ▸ hne child hm
  case not child hk hch =>
    rw [doc.children_of_not hk hch, List.forall_mem_singleton] at hc
    rw [hc.1]
    exact .not hk hch
  case bare hk hc ho hn => exact .bare hk hc ho hn
  all_goals constructor <;> assumption

end Made

namespace Lowering

variable {w : ValueWalk} {doc : Document} {l l' : Lowering} {node : Nat} {c : Candidate}

def canon (l : Lowering) (node : Nat) : Nat := l.nodeCanon.getD (node - 1) 0

def flat (l : Lowering) (node : Nat) : List Nat := l.nodeFlat.getD (node - 1) []

variable {kind : NodeKind} {flags : RootFlags} {span : SourceSpan} {n : Nat}

theorem childOperands_eq_ok {child : Nat} {operands : List Nat}
    (h : l.childOperands doc kind child = .ok operands) :
    operands = contribution doc l.canon l.flat kind child ∧ operands ≠ [] := by
  unfold childOperands at h
  split at h
  case h_1 => cases h
  case h_2 childKind hk =>
    simp only [contribution, hk, Option.some.injEq]
    split at h
    case isTrue heq =>
      have ⟨hne, h⟩ := of_guard h
      cases h
      rw [if_pos heq]
      exact ⟨rfl, hne⟩
    case isFalse hne =>
      have ⟨_, h⟩ := of_guard h
      cases h
      rw [if_neg hne]
      exact ⟨rfl, List.cons_ne_nil _ _⟩

theorem appendOperands_loop {children operands operands' : List Nat}
    (h : children.foldlM (l.appendOperands doc kind) operands = .ok operands') :
    operands' = operands ++ children.flatMap (contribution doc l.canon l.flat kind) ∧
      ∀ child ∈ children, contribution doc l.canon l.flat kind child ≠ [] := by
  induction children generalizing operands
  case nil =>
    cases h
    exact ⟨(List.append_nil _).symm, nofun⟩
  case cons child children ih =>
    have ⟨operands₁, h₁, h⟩ := of_bind h
    have ⟨more, hm, h₁⟩ := of_bind h₁
    have ⟨_, h₁⟩ := of_guard h₁
    cases h₁
    have ⟨heq, hne⟩ := childOperands_eq_ok hm
    have ⟨heq', hne'⟩ := ih h
    rw [heq', List.flatMap_cons, List.append_assoc, heq]
    exact ⟨rfl, List.forall_mem_cons.mpr ⟨heq ▸ hne, hne'⟩⟩

theorem candidate_eq_ok (hk : doc.kind node = some kind)
    (h : l.candidate w doc node kind = .ok (l', c)) :
    Made w doc l.canon l.flat node c ∧ l'.nodeCanon = l.nodeCanon ∧ l'.nodeState = l.nodeState ∧
      l'.rows = l.rows ∧ l'.slots = l.slots ∧
      l'.nodeFlat = if kind.group then l.nodeFlat.set (node - 1) c.operands else l.nodeFlat := by
  revert h
  fun_cases candidate l w doc node kind
  all_goals intro h
  case case2 value hv =>
    have ⟨v, hc, h⟩ := of_bind h
    cases h
    exact ⟨.boolean hk hv hc, rfl, rfl, rfl, rfl, rfl⟩
  case case5 hcmp hop =>
    have ⟨(l₁, list), hl, h⟩ := of_bind h
    unfold appendCanonicalList at hl
    split at hl
    case h_1 => cases hl
    case h_2 values hvalues =>
      have ⟨_, hl⟩ := of_guard hl
      have ⟨list', hlist, hl⟩ := of_bind hl
      cases hl
      cases hop
      cases h
      exact ⟨.listed hk hcmp hvalues hlist, rfl, rfl, rfl, rfl, rfl⟩
  case case6 hcmp opcode hop hin hv =>
    have ⟨v, hc, h⟩ := of_bind h
    cases h
    exact ⟨.single hk hcmp hop hin hv hc, rfl, rfl, rfl, rfl, rfl⟩
  case case8 | case9 =>
    have ⟨operands, ho, h⟩ := of_bind h
    cases h
    unfold appendGroupOperands at ho
    split at ho
    case h_1 => cases ho
    case h_2 children hchildren =>
      have ⟨_, ho⟩ := of_guard ho
      have ⟨_, ho⟩ := of_guard ho
      have ⟨heq, hne⟩ := appendOperands_loop ho
      rw [List.nil_append] at heq
      subst heq
      exact ⟨.group hk rfl hchildren hne, rfl, rfl, rfl, rfl, rfl⟩
  case case15 m hm =>
    have ⟨subject, hs, h⟩ := of_bind h
    have ⟨scope, hp, h⟩ := of_bind h
    have ⟨timing, ht, h⟩ := of_bind h
    cases h
    exact ⟨.evidence hk hm hs hp ht, rfl, rfl, rfl, rfl, rfl⟩
  all_goals cases h
  case case7 hcmp _ hop hin hv => exact ⟨.bare hk (not_not.mp hv ▸ hcmp) hop hin, rfl, rfl, rfl, rfl, rfl⟩
  case case13 hchild _ _ _ => exact ⟨.not hk hchild, rfl, rfl, rfl, rfl, rfl⟩

theorem appendCandidate_eq_ok {id : Nat} (h : l.appendCandidate flags node span c = .ok (l', id)) :
    l'.nodeCanon = l.nodeCanon ∧ l'.nodeState = l.nodeState ∧ l'.nodeFlat = l.nodeFlat ∧ id ≠ 0 ∧
      ((∃ row, l.rows[id - 1]? = some row ∧ row.toCandidate = c ∧
        l'.rows = l.rows.set (id - 1) { row with rootFlags := row.rootFlags ||| flags }) ∨
      (id = l.rows.length + 1 ∧ l'.rows = l.rows ++ [{ c with rootFlags := flags, node, span }])) := by
  have ⟨_, h⟩ := of_guard h
  simp only at h
  split at h
  case h_1 => cases h
  case h_2 slot hf =>
    cases h
    have ⟨_, hsame⟩ := Probe.mem_of_find hf
    simp only [Bool.and_eq_true, Option.any_eq_true, bne_iff_ne, beq_iff_eq] at hsame
    obtain ⟨_, row, hrow, h0, hc⟩ := hsame
    have ⟨hlt, hget⟩ := List.getElem?_eq_some_iff.mp hrow
    refine ⟨rfl, rfl, rfl, h0, .inl ⟨row, hrow, hc, ?_⟩⟩
    rw [List.modify_eq_set_getElem?, hrow]
    rfl
  case h_3 slot hf =>
    cases h
    exact ⟨rfl, rfl, rfl, Nat.succ_ne_zero _, .inr ⟨rfl, rfl⟩⟩

-- The state of the walk, given the nodes whose instructions were made, in that order. Each of them has
-- its instruction and comes after its children, and every instruction was made for one of them.
structure Sound (w : ValueWalk) (doc : Document) (nodeRoots : List RootFlags) (l : Lowering)
    (order : List Nat) : Prop where
  canonLength : l.nodeCanon.length = doc.len
  flatLength : l.nodeFlat.length = doc.len
  stateLength : l.nodeState.length = doc.len
  nodup : order.Nodup
  inRange : ∀ n ∈ order, doc.nodeInRange n
  black : ∀ n, doc.nodeInRange n → (l.nodeState[n - 1]? = some .black ↔ n ∈ order)
  unmade : ∀ n, doc.nodeInRange n → n ∉ order → l.canon n = 0
  made : ∀ n ∈ order, ∃ row, l.canon n ≠ 0 ∧ l.rows[l.canon n - 1]? = some row ∧
    Made w doc l.canon l.flat n row.toCandidate ∧
    ∀ kind, doc.kind n = some kind → kind.group → l.flat n = row.operands
  before : ∀ done n rest, order = done ++ n :: rest → ∀ child ∈ doc.children n, child ∈ done
  ordered : ∀ (i : Nat) (row : InstructionRow), l.rows[i]? = some row →
    ∀ o ∈ row.operands, o ≠ 0 ∧ o ≤ i
  origin : ∀ (i : Nat) (row : InstructionRow), l.rows[i]? = some row →
    row.node ∈ order ∧ l.canon row.node = i + 1 ∧ doc.span row.node = some row.span
  flags : ∀ (i : Nat) (row : InstructionRow), l.rows[i]? = some row → ∀ b,
    row.rootFlags.getLsbD b ↔ ∃ n ∈ order, l.canon n = i + 1 ∧ (nodeRoots.getD (n - 1) 0#8).getLsbD b

variable {nodeRoots : List RootFlags} {order : List Nat}

section

variable (h : Sound w doc nodeRoots l order)
include h

theorem Sound.children_mem {child : Nat} (hn : n ∈ order) (hc : child ∈ doc.children n) :
    child ∈ order := by
  have ⟨done, rest, he⟩ := List.append_of_mem hn
  rw [he]
  exact List.mem_append_left _ (h.before done n rest he child hc)

theorem Sound.canon_le (hn : n ∈ order) :
    l.canon n ≠ 0 ∧ l.canon n ≤ l.rows.length := by
  have ⟨row, h0, hrow, _⟩ := h.made n hn
  have := (List.getElem?_eq_some_iff.mp hrow).1
  exact ⟨h0, by omega⟩

theorem Sound.operands (made : Made w doc l.canon l.flat node c)
    (hch : ∀ child ∈ doc.children node, child ∈ order) :
    ∀ o ∈ c.operands, o ≠ 0 ∧ o ≤ l.rows.length := by
  cases made
  case group kind children hk hg hchildren _ =>
    rw [doc.children_of_group hk hg hchildren] at hch
    intro o ho
    have ⟨child, hm, ho⟩ := List.mem_flatMap.mp ho
    have hchild := hch child hm
    unfold contribution at ho
    split at ho
    case isTrue hkind =>
      have ⟨row, h0, hrow, _, hflat⟩ := h.made child hchild
      rw [hflat kind hkind hg] at ho
      have ⟨ho0, hle⟩ := h.ordered _ row hrow o ho
      have := (h.canon_le hchild).2
      exact ⟨ho0, by omega⟩
    case isFalse =>
      rw [List.mem_singleton.mp ho]
      exact h.canon_le hchild
  case not child hk hchild =>
    rw [doc.children_of_not hk hchild, List.forall_mem_singleton] at hch
    intro o ho
    rw [List.mem_singleton.mp ho]
    exact h.canon_le hch
  all_goals exact nofun

end

theorem nodeInRange_iff : doc.nodeInRange n ↔ n ≠ 0 ∧ n - 1 < doc.len := by
  simp only [Document.nodeInRange, Document.len, Bool.and_eq_true, bne_iff_ne, decide_eq_true_eq]
  omega

theorem getD_set_node {α : Type} {xs : List α} {x d : α} (hlen : xs.length = doc.len)
    (hn : doc.nodeInRange n) (hnode : doc.nodeInRange node) :
    (xs.set (node - 1) x).getD (n - 1) d = if n = node then x else xs.getD (n - 1) d := by
  rw [nodeInRange_iff] at hn hnode
  rw [Ragged.getD_set (hlen ▸ hnode.2)]
  exact if_congr (by omega) rfl rfl

structure Interned (rows rows' : List InstructionRow) (flags : RootFlags) (node : Nat)
    (span : SourceSpan) (c : Candidate) (id : Nat) : Prop where
  ne_zero : id ≠ 0
  target : ∃ row, rows'[id - 1]? = some row ∧ row.toCandidate = c
  kept : ∀ (i : Nat) (row : InstructionRow), rows[i]? = some row →
    ∃ row', rows'[i]? = some row' ∧ row'.toCandidate = row.toCandidate
  origin : ∀ (i : Nat) (row' : InstructionRow), rows'[i]? = some row' →
    (∃ row, rows[i]? = some row ∧ row'.toCandidate = row.toCandidate ∧ row'.node = row.node ∧
      row'.span = row.span ∧
      row'.rootFlags = if i + 1 = id then row.rootFlags ||| flags else row.rootFlags) ∨
    (i = rows.length ∧ i + 1 = id ∧ row'.toCandidate = c ∧ row'.node = node ∧ row'.span = span ∧
      row'.rootFlags = flags)

theorem interned_of_append {id : Nat} (h : l.appendCandidate flags node span c = .ok (l', id)) :
    Interned l.rows l'.rows flags node span c id := by
  have ⟨_, _, _, h0, hrows⟩ := appendCandidate_eq_ok h
  rcases hrows with ⟨row, hrow, hc, hrows⟩ | ⟨hid, hrows⟩
  case inl =>
    have hlt := (List.getElem?_eq_some_iff.mp hrow).1
    have hself : l'.rows[id - 1]? =
        some { row with rootFlags := row.rootFlags ||| flags } := by
      rw [hrows, List.getElem?_set_self hlt]
    have hother : ∀ i, i ≠ id - 1 → l'.rows[i]? = l.rows[i]? := fun i hi => by
      rw [hrows, List.getElem?_set_ne (Ne.symm hi)]
    refine ⟨h0, ⟨_, hself, hc⟩, fun i row' hi => ?_, fun i row' hi => .inl ?_⟩
    case refine_1 =>
      by_cases heq : i = id - 1
      case pos =>
        subst heq
        cases hrow.symm.trans hi
        exact ⟨_, hself, rfl⟩
      case neg => exact ⟨row', (hother i heq).trans hi, rfl⟩
    case refine_2 =>
      by_cases heq : i = id - 1
      case pos =>
        subst heq
        cases hself.symm.trans hi
        exact ⟨row, hrow, rfl, rfl, rfl, (if_pos (by omega)).symm⟩
      case neg => exact ⟨row', (hother i heq).symm.trans hi, rfl, rfl, rfl, (if_neg (by omega)).symm⟩
  case inr =>
    subst hid
    have hself := List.getElem?_concat_length (l := l.rows)
      (a := { c with rootFlags := flags, node, span })
    rw [← hrows] at hself
    refine ⟨h0, ⟨_, hself, rfl⟩, fun i row hi => ⟨row, ?_, rfl⟩, fun i row' hi => ?_⟩
    case refine_1 => rw [hrows, List.getElem?_append_left (List.getElem?_eq_some_iff.mp hi).1, hi]
    case refine_2 =>
      rw [hrows] at hi
      rcases Nat.lt_or_ge i l.rows.length with hlt | hge
      case inl =>
        rw [List.getElem?_append_left hlt] at hi
        exact .inl ⟨row', hi, rfl, rfl, rfl, (if_neg (by omega)).symm⟩
      case inr =>
        have hlen := (List.getElem?_eq_some_iff.mp hi).1
        obtain rfl : i = l.rows.length := by simp at hlen; omega
        rw [List.getElem?_concat_length] at hi
        cases hi
        exact .inr ⟨rfl, rfl, rfl, rfl, rfl, rfl⟩

theorem Sound.intern (h : Sound w doc nodeRoots l order) (hn : doc.nodeInRange node)
    (hnew : node ∉ order) (hch : ∀ child ∈ doc.children node, child ∈ order)
    (hi : l.internInstructionCandidate w doc nodeRoots node = .ok l') :
    Sound w doc nodeRoots { l' with nodeState := l'.nodeState.set (node - 1) .black }
      (order ++ [node]) := by
  unfold internInstructionCandidate at hi
  split at hi
  case h_2 => cases hi
  case h_1 kind span hk hspan =>
  have ⟨(l₁, c), hcand, hi⟩ := of_bind hi
  have ⟨(l₂, id), happ, hi⟩ := of_bind hi
  cases hi
  have ⟨made, hcanon₁, hstate₁, hrows₁, _, hflat₁⟩ := candidate_eq_ok hk hcand
  have ⟨hcanon₂, hstate₂, hflat₂, _⟩ := appendCandidate_eq_ok happ
  have int := hrows₁ ▸ interned_of_append happ
  have hnodeCanon : l₂.nodeCanon = l.nodeCanon := hcanon₂.trans hcanon₁
  have hnodeState : l₂.nodeState = l.nodeState := hstate₂.trans hstate₁
  have hnodeFlat := hflat₂.trans hflat₁
  generalize hL : { { l₂ with nodeCanon := l₂.nodeCanon.set (node - 1) id } with
    nodeState := l₂.nodeState.set (node - 1) .black } = L
  have hrows : L.rows = l₂.rows := by rw [← hL]
  have hcanon : ∀ n, doc.nodeInRange n → L.canon n = if n = node then id else l.canon n := by
    intro n hn'
    rw [← hL, canon, hnodeCanon, getD_set_node h.canonLength hn' hn]
    rfl
  have hflat : ∀ n, doc.nodeInRange n → L.flat n = if n = node ∧ kind.group then c.operands else l.flat n := by
    intro n hn'
    rw [← hL, flat, hnodeFlat]
    cases kind.group
    case false => simp [flat]
    case true =>
      rw [if_pos rfl, getD_set_node h.flatLength hn' hn]
      simp [flat]
  have hold : ∀ n ∈ order, L.canon n = l.canon n ∧ L.flat n = l.flat n := by
    intro n hm
    have hne : n ≠ node := fun heq => hnew (heq ▸ hm)
    rw [hcanon n (h.inRange n hm), hflat n (h.inRange n hm), if_neg hne, if_neg fun h => hne h.1]
    exact ⟨rfl, rfl⟩
  have hself : L.canon node = id := by rw [hcanon node hn, if_pos rfl]
  have hmade : ∀ {n c'}, (∀ child ∈ doc.children n, child ∈ order) →
      Made w doc l.canon l.flat n c' → Made w doc L.canon L.flat n c' := fun hsub hm =>
    hm.congr fun child hc => ⟨(hold child (hsub child hc)).1.symm, (hold child (hsub child hc)).2.symm⟩
  have hbound := h.operands made hch
  refine {
    canonLength := by rw [← hL]; simp [hnodeCanon, h.canonLength]
    flatLength := by rw [← hL, hnodeFlat]; split <;> simp [h.flatLength]
    stateLength := by rw [← hL]; simp [hnodeState, h.stateLength]
    nodup := List.concat_eq_append ▸ h.nodup.concat hnew
    inRange := fun n hm => ?inRange
    black := fun n hn' => ?black
    unmade := fun n hn' hm => ?unmade
    made := fun n hm => ?made
    before := fun done n rest he child hc => ?before
    ordered := fun i row hi o ho => ?ordered
    origin := fun i row hi => ?origin
    flags := fun i row hi b => ?flags
  }
  case inRange =>
    rcases List.mem_append.mp hm with hm | hm
    · exact h.inRange n hm
    · exact List.mem_singleton.mp hm ▸ hn
  case black =>
    have hlt := (nodeInRange_iff.mp hn).2
    rw [← hL, hnodeState, List.mem_append, List.mem_singleton]
    by_cases heq : n = node
    case pos => simp [heq, h.stateLength, hlt]
    case neg =>
      have hne : node - 1 ≠ n - 1 := by
        have := (nodeInRange_iff.mp hn).1
        have := (nodeInRange_iff.mp hn').1
        omega
      simp only [List.getElem?_set_ne hne, heq, or_false]
      exact h.black n hn'
  case unmade =>
    rw [List.mem_append, List.mem_singleton, not_or] at hm
    rw [hcanon n hn', if_neg hm.2]
    exact h.unmade n hn' hm.1
  case made =>
    rcases List.mem_append.mp hm with hm | hm
    case inl =>
      have ⟨row, h0, hrow, hm', hg⟩ := h.made n hm
      have ⟨row', hrow', heq⟩ := int.kept _ row hrow
      refine ⟨row', ?_⟩
      rw [(hold n hm).1, (hold n hm).2, hrows, heq]
      exact ⟨h0, hrow', hmade (fun _ => h.children_mem hm) hm', hg⟩
    case inr =>
      obtain rfl := List.mem_singleton.mp hm
      have ⟨row, hrow, heq⟩ := int.target
      refine ⟨row, ?_⟩
      rw [hself, hrows, heq]
      refine ⟨int.ne_zero, hrow, hmade hch made, fun kind' hk' hg => ?_⟩
      rw [hk] at hk'
      cases hk'
      rw [hflat n hn, if_pos ⟨rfl, hg⟩]
  case before =>
    rcases List.eq_nil_or_concat rest with rfl | ⟨rest', last, rfl⟩
    case inl =>
      have ⟨hdone, hlast⟩ := List.append_inj' he rfl
      cases hlast
      exact hdone ▸ hch child hc
    case inr =>
      rw [List.concat_eq_append, ← List.cons_append, ← List.append_assoc] at he
      have ⟨hdone, _⟩ := List.append_inj' he rfl
      exact h.before done n rest' hdone child hc
  case ordered =>
    rw [hrows] at hi
    rcases int.origin i row hi with ⟨row₀, hrow₀, heq, _⟩ | ⟨hlen, _, heq, _⟩
    · exact h.ordered i row₀ hrow₀ o (heq ▸ ho)
    · rw [hlen]
      exact hbound o (heq ▸ ho)
  case origin =>
    rw [hrows] at hi
    rcases int.origin i row hi with ⟨row₀, hrow₀, _, hnode, hspan', _⟩ | ⟨_, hid, _, hnode, hspan', _⟩
    case inl =>
      have ⟨hm, hc, hs⟩ := h.origin i row₀ hrow₀
      rw [hnode, hspan', (hold _ hm).1]
      exact ⟨List.mem_append_left _ hm, hc, hs⟩
    case inr =>
      rw [hnode, hspan', hself]
      exact ⟨List.mem_append_right _ (List.mem_singleton_self _), hid.symm, hspan⟩
  case flags =>
    rw [hrows] at hi
    have hsplit : (∃ n ∈ order ++ [node], L.canon n = i + 1 ∧ (nodeRoots.getD (n - 1) 0#8).getLsbD b) ↔
        (∃ n ∈ order, l.canon n = i + 1 ∧ (nodeRoots.getD (n - 1) 0#8).getLsbD b) ∨
          id = i + 1 ∧ (nodeRoots.getD (node - 1) 0#8).getLsbD b := by
      simp only [List.mem_append, List.mem_singleton, or_and_right, exists_or, exists_eq_left, hself]
      refine or_congr_left ⟨fun ⟨n, hm, hc, hb⟩ => ⟨n, hm, (hold n hm).1 ▸ hc, hb⟩,
        fun ⟨n, hm, hc, hb⟩ => ⟨n, hm, (hold n hm).1.symm ▸ hc, hb⟩⟩
    rw [hsplit]
    rcases int.origin i row hi with ⟨row₀, hrow₀, _, _, _, hflags⟩ | ⟨hlen, hid, _, _, _, hflags⟩
    case inl =>
      rw [hflags, ← h.flags i row₀ hrow₀ b]
      by_cases heq : i + 1 = id
      case pos =>
        rw [if_pos heq, BitVec.getLsbD_or, Bool.or_eq_true, and_iff_right heq.symm]
        exact Iff.rfl
      case neg =>
        rw [if_neg heq]
        simp [Ne.symm heq]
    case inr =>
      rw [hflags, and_iff_right hid.symm]
      refine (or_iff_right fun ⟨n, hm, hc, _⟩ => ?_).symm
      have := (h.canon_le hm).2
      omega

theorem Sound.enter (h : Sound w doc nodeRoots l order) {i : Nat}
    (hi : l.nodeState[i]? ≠ some .black) :
    Sound w doc nodeRoots { l with nodeState := l.nodeState.set i .gray } order :=
  { h with
    stateLength := by simpa using h.stateLength
    black := fun n hn => by
      rw [← h.black n hn]
      by_cases heq : i = n - 1
      case pos =>
        subst heq
        simp [List.getElem?_set, hi]
      case neg => simp only [List.getElem?_set_ne heq] }

theorem sound_initial (hn : doc.len = n) (slots : List (Option CandidateSlot)) :
    Sound w doc nodeRoots {
      nodeCanon := List.replicate n 0
      nodeState := List.replicate n .white
      nodeFlat := List.replicate n []
      rows := []
      slots
      listLength := 0
      operandLength := 0
    } [] where
  canonLength := by simp [hn]
  flatLength := by simp [hn]
  stateLength := by simp [hn]
  nodup := .nil
  inRange := nofun
  black m hm := by simp [List.getElem?_replicate]
  unmade m hm _ := by
    simp only [canon, List.getD_eq_getElem?_getD, List.getElem?_replicate]
    split <;> rfl
  made := nofun
  before done m rest he := by simp at he
  ordered := by simp
  origin := by simp
  flags := by simp

end Lowering

section Edges

variable {doc : Document} {node count : Nat}

theorem exists_kind_of_edgeCount (h : edgeCount doc node = .ok count) : ∃ kind, doc.kind node = some kind := by
  unfold edgeCount at h
  split at h
  case h_1 => cases h
  all_goals exact ⟨_, by assumption⟩

theorem exists_edge (h : edgeCount doc node = .ok count) {child : Nat} (hc : child ∈ doc.children node) :
    ∃ j < count, childAt doc node j = .ok child := by
  unfold Document.children at hc
  split at hc
  case h_1 hk =>
    simp only [edgeCount, hk] at h
    cases h
    have hc := Option.mem_toList.mp hc
    exact ⟨0, Nat.one_pos, by simp only [childAt, hk, hc]⟩
  case h_2 | h_3 =>
    rename_i hk
    simp only [edgeCount, hk] at h
    split at h
    case h_1 => cases h
    case h_2 start _ hr =>
      cases h
      have hgroup : doc.groupChildren node = some (Region.read doc.childNodeIDs start count) := by
        simp [Document.groupChildren, hr]
      rw [hgroup, Option.getD_some] at hc
      obtain ⟨j, hj⟩ := List.mem_iff_getElem?.mp hc
      refine ⟨j, ?_, by simp only [childAt, hk, hgroup, Option.bind_some, hj]⟩
      rw [Region.getElem?_read] at hj
      by_contra hge
      rw [if_neg hge] at hj
      cases hj
  case h_4 => cases hc

end Edges

theorem getElem?_of_getD {colors : List Document.Color} {i : Nat} {c c' : Document.Color} (hne : c ≠ c')
    (h : colors.getD i c' = c) : colors[i]? = some c := by
  cases hc : colors[i]? <;> simp_all

namespace Lowering

open Document (VisitFrame)

variable {w : ValueWalk} {doc : Document} {l l' : Lowering} {nodeRoots : List RootFlags}
  {order : List Nat}

-- The nodes on the stack are being visited. The edges that were followed lead to finished nodes, except
-- for the one to the node above.
def Stacked (doc : Document) (l : Lowering) : Option Nat → List VisitFrame → Prop
  | _, [] => True
  | above, frame :: stack =>
    l.nodeState[frame.node - 1]? = some .gray ∧ (∀ f ∈ stack, f.node - 1 ≠ frame.node - 1) ∧
    (∀ j < frame.next, ∀ child, childAt doc frame.node j = .ok child →
      l.nodeState[child - 1]? = some .black ∨ above = some child) ∧
    Stacked doc l (some frame.node) stack

variable {above : Option Nat} {fields : Schema}

theorem Stacked.gray (h : Stacked doc l above stack) :
    ∀ f ∈ stack, l.nodeState[f.node - 1]? = some .gray := by
  induction stack generalizing above
  case nil => exact nofun
  case cons frame stack ih => exact List.forall_mem_cons.mpr ⟨h.1, ih h.2.2.2⟩

theorem Stacked.mono {above' : Option Nat} (h : Stacked doc l above stack)
    (hblack : ∀ i : Nat, l.nodeState[i]? = some .black → l'.nodeState[i]? = some .black)
    (hgray : ∀ f ∈ stack, l'.nodeState[f.node - 1]? = some .gray)
    (habove : ∀ n, above = some n → above' = some n ∨ l'.nodeState[n - 1]? = some .black) :
    Stacked doc l' above' stack := by
  induction stack generalizing above above'
  case nil => trivial
  case cons frame stack ih =>
    have ⟨_, hne, hedges, hstack⟩ := h
    have ⟨hg, hgray⟩ := List.forall_mem_cons.mp hgray
    refine ⟨hg, hne, fun j hj child hc => ?_, ih hstack hgray fun n hn => .inl hn⟩
    rcases hedges j hj child hc with hb | ha
    · exact .inl (hblack _ hb)
    · exact (habove child ha).symm

structure Walking (w : ValueWalk) (doc : Document) (nodeRoots : List RootFlags) (roots : List Nat)
    (s : Lowering × List VisitFrame) : Prop where
  sound : ∃ order, Sound w doc nodeRoots s.1 order
  stacked : Stacked doc s.1 none s.2
  roots : ∀ r ∈ roots, s.1.nodeState[r - 1]? = some .black ∨ ∃ f ∈ s.2, f.node = r

variable {roots : List Nat} {frame : VisitFrame} {stack : List VisitFrame}

theorem Walking.advance (h : Walking w doc nodeRoots roots (l, frame :: stack)) {child : Nat}
    (hc : childAt doc frame.node frame.next = .ok child) (hb : l.nodeState[child - 1]? = some .black) :
    Walking w doc nodeRoots roots (l, { frame with next := frame.next + 1 } :: stack) := by
  have ⟨hg, hne, hedges, hstack⟩ := h.stacked
  refine ⟨h.sound, ⟨hg, hne, fun j hj child' hc' => ?_, hstack⟩, fun r hr => ?_⟩
  case refine_1 =>
    rcases Nat.lt_succ_iff_lt_or_eq.mp hj with hj | rfl
    case inl => exact hedges j hj child' hc'
    case inr =>
      cases hc.symm.trans hc'
      exact .inl hb
  case refine_2 =>
    refine (h.roots r hr).imp_right fun ⟨f, hm, hf⟩ => ?_
    rcases List.mem_cons.mp hm with rfl | hm
    · exact ⟨_, List.mem_cons_self, hf⟩
    · exact ⟨f, List.mem_cons_of_mem _ hm, hf⟩

theorem Walking.enter (h : Walking w doc nodeRoots roots (l, frame :: stack)) {child : Nat}
    (hc : childAt doc frame.node frame.next = .ok child) (hw : l.nodeState[child - 1]? = some .white) :
    Walking w doc nodeRoots roots ({ l with nodeState := l.nodeState.set (child - 1) .gray },
      ⟨child, 0⟩ :: { frame with next := frame.next + 1 } :: stack) := by
  have ⟨hg, hne, hedges, hstack⟩ := h.stacked
  have ⟨order, sound⟩ := h.sound
  have hlt := (List.getElem?_eq_some_iff.mp hw).1
  have hother : ∀ {i : Nat} {color : Document.Color}, color ≠ .white → l.nodeState[i]? = some color →
      (l.nodeState.set (child - 1) .gray)[i]? = some color := by
    intro i color hcolor hi
    rw [List.getElem?_set_ne, hi]
    rintro rfl
    rw [hw] at hi
    exact hcolor (Option.some.inj hi).symm
  have hdiff : ∀ f ∈ frame :: stack, f.node - 1 ≠ child - 1 := by
    intro f hm heq
    have := h.stacked.gray f hm
    rw [heq, hw] at this
    cases this
  have ⟨hd, hdiff'⟩ := List.forall_mem_cons.mp hdiff
  refine ⟨⟨order, sound.enter (by rw [hw]; exact nofun)⟩, ⟨?_, ?_, nofun, ?_, hne, ?_, ?_⟩, fun r hr => ?_⟩
  case refine_1 => exact List.getElem?_set_self hlt
  case refine_2 => exact List.forall_mem_cons.mpr ⟨hd, hdiff'⟩
  case refine_3 => exact hother nofun hg
  case refine_4 =>
    intro j hj child' hc'
    rcases Nat.lt_succ_iff_lt_or_eq.mp hj with hj | rfl
    case inl =>
      refine (hedges j hj child' hc').imp (hother nofun) nofun
    case inr =>
      cases hc.symm.trans hc'
      exact .inr rfl
  case refine_5 =>
    exact hstack.mono (fun i => hother nofun) (fun f hm => hother nofun (hstack.gray f hm))
      fun n hn => .inl hn
  case refine_6 =>
    refine (h.roots r hr).imp (hother nofun) fun ⟨f, hm, hf⟩ => ?_
    rcases List.mem_cons.mp hm with rfl | hm
    · exact ⟨_, List.mem_cons_of_mem _ List.mem_cons_self, hf⟩
    · exact ⟨f, List.mem_cons_of_mem _ (List.mem_cons_of_mem _ hm), hf⟩

theorem nodeState_intern {node : Nat} (h : l.internInstructionCandidate w doc nodeRoots node = .ok l') :
    l'.nodeState = l.nodeState := by
  unfold internInstructionCandidate at h
  split at h
  case h_2 => cases h
  case h_1 hk _ =>
    have ⟨(l₁, c), hcand, h⟩ := of_bind h
    have ⟨(l₂, id), happ, h⟩ := of_bind h
    cases h
    have ⟨_, _, hstate, _⟩ := candidate_eq_ok hk hcand
    exact (appendCandidate_eq_ok happ).2.1.trans hstate

theorem Walking.finish (valid : doc.Validated fields)
    (h : Walking w doc nodeRoots roots (l, frame :: stack)) {count : Nat}
    (hcount : edgeCount doc frame.node = .ok count) (hdone : ¬frame.next < count)
    (hi : l.internInstructionCandidate w doc nodeRoots frame.node = .ok l') :
    Walking w doc nodeRoots roots
      ({ l' with nodeState := l'.nodeState.set (frame.node - 1) .black }, stack) := by
  have ⟨hg, hne, hedges, hstack⟩ := h.stacked
  have ⟨order, sound⟩ := h.sound
  have ⟨kind, hk⟩ := exists_kind_of_edgeCount hcount
  have hin := ((Document.kind_eq_some valid.toColumns).mp hk).1
  have hchild : ∀ child ∈ doc.children frame.node, child ∈ order := by
    intro child hc
    have ⟨j, hj, hat⟩ := exists_edge hcount hc
    have hb : l.nodeState[child - 1]? = some .black :=
      (hedges j (by omega) child hat).resolve_right nofun
    refine (sound.black child ?_).mp hb
    unfold Document.children at hc
    split at hc
    case h_1 hk => exact (valid.notChild hk (Option.mem_toList.mp hc)).inRange
    case h_2 | h_3 =>
      rename_i hk
      cases hgc : doc.groupChildren frame.node
      case none => simp [hgc] at hc
      case some children =>
        rw [hgc, Option.getD_some] at hc
        exact ((valid.groupChildren hk rfl hgc).2 child hc).inRange
    case h_4 => cases hc
  have hnew : frame.node ∉ order := by
    rw [← sound.black _ hin, hg]
    exact nofun
  have hstate := nodeState_intern hi
  have hlt := (List.getElem?_eq_some_iff.mp hg).1
  have hblack : ∀ i : Nat, l.nodeState[i]? = some .black →
      (l'.nodeState.set (frame.node - 1) .black)[i]? = some .black := by
    intro i hb
    rw [hstate]
    by_cases heq : frame.node - 1 = i
    case pos => rw [heq, List.getElem?_set_self (heq ▸ hlt)]
    case neg => rw [List.getElem?_set_ne heq, hb]
  have hself : (l'.nodeState.set (frame.node - 1) .black)[frame.node - 1]? = some .black := by
    rw [hstate, List.getElem?_set_self hlt]
  refine ⟨⟨_, sound.intern hin hnew hchild hi⟩, hstack.mono hblack (fun f hm => ?_) fun n hn => .inr ?_,
    fun r hr => ?_⟩
  case refine_1 =>
    change (l'.nodeState.set (frame.node - 1) .black)[f.node - 1]? = some .gray
    rw [hstate, List.getElem?_set_ne (Ne.symm (hne f hm)), hstack.gray f hm]
  case refine_2 =>
    cases hn
    exact hself
  case refine_3 =>
    rcases h.roots r hr with hb | ⟨f, hm, hf⟩
    case inl => exact .inl (hblack _ hb)
    case inr =>
      rcases List.mem_cons.mp hm with rfl | hm
      · exact .inl (hf ▸ hself)
      · exact .inr ⟨f, hm, hf⟩

theorem Walking.step (valid : doc.Validated fields) {s s' : Lowering × List VisitFrame}
    (h : Walking w doc nodeRoots roots s) (hs : lowerStep w doc nodeRoots s = .inl s') :
    Walking w doc nodeRoots roots s' := by
  revert hs
  fun_cases lowerStep w doc nodeRoots s
  all_goals rintro ⟨⟩
  case case5 hc _ hb => exact h.advance hc (getElem?_of_getD (by rintro ⟨⟩) hb)
  case case6 hc _ hw => exact h.enter hc (getElem?_of_getD (by rintro ⟨⟩) hw)
  case case8 hcount hdone l₁ hi => exact h.finish valid hcount hdone hi

theorem lowerRoot_eq_ok (valid : doc.Validated fields) {root : Nat} (hroot : doc.nodeInRange root)
    (h : Walking w doc nodeRoots roots (l, [])) (hl : lowerRoot w doc nodeRoots l root = .ok l') :
    Walking w doc nodeRoots (root :: roots) (l', []) := by
  have ⟨order, sound⟩ := h.sound
  have hroots : ∀ r ∈ roots, l.nodeState[r - 1]? = some .black := fun r hr =>
    (h.roots r hr).resolve_right nofun
  have hlt : root - 1 < l.nodeState.length := sound.stateLength ▸ (nodeInRange_iff.mp hroot).2
  unfold lowerRoot at hl
  split at hl
  case isTrue hb =>
    cases hl
    refine ⟨h.sound, trivial, List.forall_mem_cons.mpr ⟨.inl ?_, h.roots⟩⟩
    rw [List.getD_eq_getElem _ _ hlt] at hb
    rw [List.getElem?_eq_getElem hlt, hb]
  case isFalse hb =>
    have hnb : l.nodeState[root - 1]? ≠ some .black := by
      intro he
      rw [List.getD_eq_getElem?_getD, he] at hb
      exact hb rfl
    have start : Walking w doc nodeRoots (root :: roots)
        ({ l with nodeState := l.nodeState.set (root - 1) .gray }, [⟨root, 0⟩]) := by
      refine ⟨⟨order, sound.enter hnb⟩, ⟨List.getElem?_set_self hlt, nofun, nofun, trivial⟩,
        List.forall_mem_cons.mpr ⟨.inr ⟨_, List.mem_cons_self, rfl⟩, fun r hr => .inl ?_⟩⟩
      change (l.nodeState.set (root - 1) .gray)[r - 1]? = some .black
      rw [List.getElem?_set_ne, hroots r hr]
      intro he
      exact hnb (he ▸ hroots r hr)
    refine Loop.run_invariant (Walking w doc nodeRoots (root :: roots))
      (fun res => res = .ok l' → Walking w doc nodeRoots (root :: roots) (l', [])) (by rintro ⟨⟩)
      (fun s s' h hs => h.step valid hs) (fun s res h hs hres => ?_) start hl
    revert hs
    fun_cases lowerStep w doc nodeRoots s
    all_goals rintro ⟨⟩
    all_goals cases hres
    exact h

end Lowering

section Roots

variable {doc : Document} {n : Nat} {flag : RootFlags} {flags flags' : List RootFlags}

theorem markRoot_eq_ok {root : Nat} (h : markRoot flag flags root = .ok flags') :
    root ≠ 0 ∧ root ≤ flags.length ∧ flags' = flags.modify (root - 1) (· ||| flag) := by
  have ⟨hr, h⟩ := of_guard h
  rw [not_or] at hr
  exact ⟨hr.1, Nat.not_lt.mp hr.2, (Except.ok.inj h).symm⟩

theorem markRoots_eq_ok {roots : List Nat} (h : roots.foldlM (markRoot flag) flags = .ok flags') :
    flags'.length = flags.length ∧
      (∀ root ∈ roots, root ≠ 0 ∧ root ≤ flags.length) ∧
      ∀ m, m < flags.length → flags'.getD m 0#8 =
        flags.getD m 0#8 ||| if m + 1 ∈ roots then flag else 0#8 := by
  induction roots generalizing flags
  case nil =>
    cases h
    exact ⟨rfl, nofun, fun m _ => by simp⟩
  case cons root roots ih =>
    have ⟨flags₁, h₁, h⟩ := of_bind h
    have ⟨h0, hle, heq⟩ := markRoot_eq_ok h₁
    have ⟨hlen, hroots, hflags⟩ := ih h
    have hlen₁ : flags₁.length = flags.length := by rw [heq, List.length_modify]
    rw [hlen₁] at hlen hroots hflags
    refine ⟨hlen, List.forall_mem_cons.mpr ⟨⟨h0, hle⟩, hroots⟩, fun m hm => ?_⟩
    rw [hflags m hm, heq]
    have hroot : m + 1 = root ↔ root - 1 = m := by omega
    simp only [List.getD_eq_getElem?_getD, List.getElem?_modify, List.mem_cons, hroot]
    by_cases hr : root - 1 = m
    case pos =>
      have hget : flags[m]? = some flags[m] := List.getElem?_eq_getElem hm
      simp only [hr, if_true, true_or, hget, Option.map_eq_map, Option.map_some, Option.getD_some]
      split
      · rw [BitVec.or_assoc, BitVec.or_self]
      · rw [BitVec.or_zero]
    case neg => simp [hr]

theorem markRootFlags_eq_ok (h : markRootFlags doc n = .ok flags) :
    flags.length = n ∧ (∀ root ∈ collectRoots doc, root ≠ 0 ∧ root ≤ n) ∧
      ∀ m, m < n → flags.getD m 0#8 =
        (if m + 1 ∈ doc.requirementApplicabilityRoots then RootFlags.applicability else 0#8) |||
        (if m + 1 ∈ doc.clauseAssertionRoots then RootFlags.assertion else 0#8) |||
        (if m + 1 ∈ doc.clauseEvidenceNodeIDs then RootFlags.evidence else 0#8) := by
  have ⟨flags₁, h₁, h⟩ := of_bind h
  have ⟨flags₂, h₂, h⟩ := of_bind h
  have ⟨l₁, r₁, f₁⟩ := markRoots_eq_ok h₁
  have ⟨l₂, r₂, f₂⟩ := markRoots_eq_ok h₂
  have ⟨l₃, r₃, f₃⟩ := markRoots_eq_ok h
  rw [List.length_replicate] at l₁ r₁ f₁
  rw [l₁] at l₂ r₂ f₂
  rw [l₂] at l₃ r₃ f₃
  refine ⟨l₃, fun root hr => ?_, fun m hm => ?_⟩
  case refine_1 =>
    rw [collectRoots, Sorted.mem_sortUnique, List.mem_append, List.mem_append] at hr
    rcases hr with (hr | hr) | hr
    · exact r₁ root hr
    · exact r₂ root hr
    · exact r₃ root hr
  case refine_2 =>
    rw [f₃ m hm, f₂ m hm, f₁ m hm, List.getD_eq_getElem _ _ (by simpa using hm), List.getElem_replicate,
      BitVec.zero_or]

end Roots

theorem candidates_eq_ok {w : ValueWalk} {l : Lowering} (valid : doc.Validated fields)
    (h : candidates w doc = .ok l) :
    ∃ nodeRoots order, markRootFlags doc doc.len = .ok nodeRoots ∧
      Lowering.Sound w doc nodeRoots l order ∧ ∀ root ∈ collectRoots doc, root ∈ order := by
  have ⟨_, h⟩ := of_guard h
  have ⟨nodeRoots, hroots, hl⟩ := of_bind h
  have ⟨_, hrange, _⟩ := markRootFlags_eq_ok hroots
  have hin : ∀ root ∈ collectRoots doc, doc.nodeInRange root := fun root hr => by
    have := hrange root hr
    rw [Lowering.nodeInRange_iff]
    omega
  have walked : ∀ (roots : List Nat) (l₀ : Lowering) (done : List Nat), (∀ root ∈ roots, doc.nodeInRange root) →
      Lowering.Walking w doc nodeRoots done (l₀, []) → roots.foldlM (lowerRoot w doc nodeRoots) l₀ = .ok l →
      Lowering.Walking w doc nodeRoots (roots.reverse ++ done) (l, []) := by
    intro roots
    induction roots
    case nil =>
      intro l₀ done _ hw hl
      cases hl
      exact hw
    case cons root roots ih =>
      intro l₀ done hin hw hl
      have ⟨l₁, h₁, hl⟩ := of_bind hl
      have ⟨hr, hin⟩ := List.forall_mem_cons.mp hin
      have := ih l₁ (root :: done) hin (Lowering.lowerRoot_eq_ok valid hr hw h₁) hl
      rwa [List.reverse_cons, List.append_assoc, List.singleton_append]
  have hw := walked _ _ [] hin ⟨⟨[], Lowering.sound_initial rfl _⟩, trivial, nofun⟩ hl
  have ⟨order, sound⟩ := hw.sound
  refine ⟨nodeRoots, order, hroots, sound, fun root hr => ?_⟩
  refine (sound.black root (hin root hr)).mp ((hw.roots root ?_).resolve_right nofun)
  simpa using hr

theorem lowerCandidates_eq_ok {w : ValueWalk} {t : InstructionTable} (valid : doc.Validated fields)
    (h : lowerCandidates w doc = .ok t) :
    ∃ nodeRoots l order, markRootFlags doc doc.len = .ok nodeRoots ∧
      Lowering.Sound w doc nodeRoots l order ∧ (∀ root ∈ collectRoots doc, root ∈ order) ∧
      compactInstructions doc l = .ok t := by
  have ⟨l, hl, h⟩ := of_bind h
  have ⟨nodeRoots, order, hroots, sound, hmem⟩ := candidates_eq_ok valid hl
  exact ⟨nodeRoots, l, order, hroots, sound, hmem, h⟩

end NornRune
