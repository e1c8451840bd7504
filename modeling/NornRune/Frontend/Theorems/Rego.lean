import NornRune.Frontend.Rego

open Checked

namespace NornRune.Frontend

def segments (path : List Byte) : List (List Byte) :=
  path.splitOn dot

section Segments

variable {path s rest : List Byte}

theorem segments_cons (c : Byte) (cs : List Byte) : segments (c :: cs) =
    if c = dot then [] :: segments cs else (segments cs).modifyHead (c :: ·) := by
  rw [segments, List.splitOn, List.splitOnP_cons_eq_if_modifyHead]
  simp only [beq_iff_eq]
  rfl

theorem segments_ne_nil (path : List Byte) : segments path ≠ [] :=
  List.splitOn_ne_nil dot path

theorem segments_append_dot (h : dot ∉ s) (rest : List Byte) :
    segments (s ++ dot :: rest) = s :: segments rest := by
  induction s
  case nil => rw [List.nil_append, segments_cons, if_pos rfl]
  case cons c s ih =>
    have ⟨hc, hs⟩ := not_or.mp (mt List.mem_cons.mpr h)
    rw [List.cons_append, segments_cons, if_neg (Ne.symm hc), ih hs, List.modifyHead_cons]

theorem segments_of_notMem (h : dot ∉ s) : segments s = [s] := by
  induction s
  case nil => rfl
  case cons c s ih =>
    have ⟨hc, hs⟩ := not_or.mp (mt List.mem_cons.mpr h)
    rw [segments_cons, if_neg (Ne.symm hc), ih hs, List.modifyHead_cons]

theorem segments_injective : Function.Injective segments := by
  intro path path' h
  have := congrArg [dot].intercalate h
  rwa [segments, segments, List.intercalate_splitOn, List.intercalate_splitOn] at this

def remaining (rest : List Byte) : List (List Byte) :=
  if rest = [] then [] else segments rest

theorem remaining_eq_cons (hr : rest ≠ []) (hne : [] ∉ remaining rest) :
    remaining rest = rest.take (rest.idxOf dot) :: remaining (rest.drop (rest.idxOf dot + 1)) := by
  rw [remaining, if_neg hr] at hne ⊢
  by_cases h : dot ∈ rest
  case neg =>
    rw [List.idxOf_eq_length h, List.take_length, List.drop_of_length_le (Nat.le_succ _),
      segments_of_notMem h]
    rfl
  case pos =>
    have ⟨s, rest', he, hs⟩ := List.eq_append_cons_of_mem h
    subst he
    rw [segments_append_dot hs] at hne ⊢
    have hidx : (s ++ dot :: rest').idxOf dot = s.length := by
      rw [List.idxOf_append_of_notMem hs, List.idxOf_cons_self, Nat.add_zero]
    have hrest : rest' ≠ [] := by
      rintro rfl
      exact hne (List.mem_cons_of_mem _ List.mem_cons_self)
    rw [hidx, List.take_left, ← List.drop_drop, List.drop_left, List.drop_one, List.tail_cons,
      remaining, if_neg hrest]

theorem segments_of_validPathFrom {segmentStart : Bool} (h : validPathFrom segmentStart path) :
    ∃ s ss, segments path = s :: ss ∧ (segmentStart → s ≠ []) ∧ [] ∉ ss := by
  fun_induction validPathFrom segmentStart path
  case case1 segmentStart =>
    cases segmentStart
    case false => exact ⟨[], [], rfl, nofun, List.not_mem_nil⟩
    case true => cases h
  case case2 segmentStart cs ih =>
    rw [Bool.and_eq_true, Bool.not_eq_true'] at h
    have ⟨s, ss, he, hs, hss⟩ := ih h.2
    refine ⟨[], segments cs, by rw [segments_cons, if_pos rfl], fun hb => ?_, fun hm => ?_⟩
    · exact absurd hb (by rw [h.1]; exact Bool.false_ne_true)
    · rw [he] at hm
      rcases List.mem_cons.mp hm with hm | hm
      · exact hs rfl hm.symm
      · exact hss hm
  case case3 character cs hc ih =>
    have ⟨s, ss, he, _, hss⟩ := ih (Bool.and_eq_true _ _ ▸ h).2
    exact ⟨character :: s, ss, by rw [segments_cons, if_neg hc, he, List.modifyHead_cons],
      fun _ => List.cons_ne_nil _ _, hss⟩
  case case4 segmentStart character cs hc _ ih =>
    have ⟨s, ss, he, _, hss⟩ := ih (Bool.and_eq_true _ _ ▸ h).2
    exact ⟨character :: s, ss, by rw [segments_cons, if_neg hc, he, List.modifyHead_cons],
      fun _ => List.cons_ne_nil _ _, hss⟩

theorem remaining_of_validPath (h : validPath path) :
    remaining path = segments path ∧ [] ∉ segments path := by
  have ⟨s, ss, he, hs, hss⟩ := segments_of_validPathFrom h
  refine ⟨if_neg ?_, fun hm => ?_⟩
  · rintro rfl
    cases h
  · rw [he] at hm
    rcases List.mem_cons.mp hm with hm | hm
    · exact hs rfl hm.symm
    · exact hss hm

end Segments

namespace Rego

variable {path : List Byte} {bindings : BindingSet}

theorem matchesFrom_cons {row start : Nat} {term : Term} {value : List Byte}
    (hv : term.part? row = some value) (hstart : start ≤ path.length) :
    ∃ start' ≤ path.length,
      path.drop start' = (path.drop start).drop ((path.drop start).idxOf dot + 1) ∧
      ∀ ref, matchesFrom path row start (term :: ref) ↔
        (path.drop start).take ((path.drop start).idxOf dot) = value ∧
          matchesFrom path (row + 1) start' ref := by
  have hle := List.idxOf_le_length (a := dot) (l := path.drop start)
  rw [List.length_drop] at hle
  let stop := start + (path.drop start).idxOf dot
  refine ⟨if stop < path.length then stop + 1 else stop, ?_, ?_, fun ref => ?_⟩
  case refine_3 =>
    simp only [matchesFrom, hv]
    split
    case isTrue hne => simp [hne]
    case isFalse he => exact (and_iff_right (not_not.mp he)).symm
  all_goals split
  case refine_1.isTrue => omega
  case refine_1.isFalse => omega
  case refine_2.isTrue => rw [List.drop_drop, Nat.add_assoc]
  case refine_2.isFalse =>
    rw [List.drop_drop, List.drop_of_length_le (by omega), List.drop_of_length_le (by omega)]

theorem matchesFrom_iff {row start : Nat} {parts : List (List Byte)} (hstart : start ≤ path.length)
    (hne : [] ∉ remaining (path.drop start)) :
    matchesFrom path (row + 1) start (parts.map .string) ↔
      ∃ n, parts = remaining (path.drop start) ++ List.replicate n [] := by
  induction parts generalizing row start
  case nil =>
    simp only [List.map_nil, matchesFrom, beq_iff_eq]
    constructor
    case mp =>
      rintro rfl
      exact ⟨0, by rw [List.drop_length]; rfl⟩
    case mpr =>
      rintro ⟨n, hn⟩
      have hnil := (List.append_eq_nil_iff.mp hn.symm).1
      rw [remaining] at hnil
      split at hnil
      case isTrue hd => exact Nat.le_antisymm hstart (List.drop_eq_nil_iff.mp hd)
      case isFalse => exact absurd hnil (segments_ne_nil _)
  case cons part parts ih =>
    have ⟨start', hle, hdrop, hstep⟩ :=
      @matchesFrom_cons path (row + 1) start (.string part) part rfl hstart
    rw [List.map_cons, hstep]
    by_cases hr : path.drop start = []
    case pos =>
      -- Behind the end of the path there are empty parts only.
      have hnil : remaining (path.drop start) = [] := if_pos hr
      have hnil' : remaining (path.drop start') = [] := by
        rw [hdrop, hr]
        rfl
      rw [ih hle (hnil' ▸ List.not_mem_nil), hnil', hnil, hr]
      simp only [List.nil_append, List.take_nil]
      constructor
      case mp =>
        rintro ⟨rfl, n, rfl⟩
        exact ⟨n + 1, rfl⟩
      case mpr =>
        rintro ⟨n, hn⟩
        cases n
        case zero => cases hn
        case succ n =>
          have ⟨hp, hps⟩ := List.cons.inj hn
          exact ⟨hp.symm, n, hps⟩
    case neg =>
      have hcons := remaining_eq_cons hr hne
      rw [← hdrop] at hcons
      have hne' : [] ∉ remaining (path.drop start') := fun hm =>
        hne (hcons ▸ List.mem_cons_of_mem _ hm)
      rw [ih hle hne', hcons]
      constructor
      case mp =>
        rintro ⟨rfl, n, rfl⟩
        exact ⟨n, rfl⟩
      case mpr =>
        rintro ⟨n, hn⟩
        have ⟨hp, hps⟩ := List.cons.inj hn
        exact ⟨hp.symm, n, hps⟩

def reference (parts : List (List Byte)) : List Term :=
  .var (bytes "input") :: parts.map .string

theorem refMatchesPath_iff {parts : List (List Byte)} (h : validPath path) :
    refMatchesPath (reference parts) path ↔
      ∃ n, bytes "input" :: parts = segments path ++ List.replicate n [] := by
  have ⟨hremaining, hne⟩ := remaining_of_validPath h
  have ⟨start, hle, hdrop, hstep⟩ :=
    @matchesFrom_cons path 0 0 (.var (bytes "input")) (bytes "input") rfl (Nat.zero_le _)
  rw [List.drop_zero] at hdrop hstep
  have hpath : path ≠ [] := by
    rintro rfl
    cases h
  have hcons := remaining_eq_cons hpath (hremaining ▸ hne)
  rw [← hdrop, hremaining] at hcons
  have hne' : [] ∉ remaining (path.drop start) := fun hm => hne (hcons ▸ List.mem_cons_of_mem _ hm)
  rw [refMatchesPath, reference, hstep, matchesFrom_iff hle hne', hcons]
  constructor
  case mp =>
    rintro ⟨hp, n, rfl⟩
    exact ⟨n, by rw [hp]; rfl⟩
  case mpr =>
    rintro ⟨n, hn⟩
    have ⟨hp, hps⟩ := List.cons.inj hn
    exact ⟨hp.symm, n, hps⟩

theorem segments_eq_of_append_replicate {xs ys : List (List Byte)} {n m : Nat}
    (h : xs ++ List.replicate n [] = ys ++ List.replicate m []) (hx : [] ∉ xs) (hy : [] ∉ ys) :
    xs = ys := by
  have hfilter := congrArg (List.filter (· != [])) h
  have hkeep {zs : List (List Byte)} (hz : [] ∉ zs) : zs.filter (· != []) = zs :=
    List.filter_eq_self.mpr fun z hm => bne_iff_ne.mpr fun he => hz (he ▸ hm)
  rw [List.filter_append, List.filter_append, hkeep hx, hkeep hy, List.filter_replicate_of_neg (by simp),
    List.filter_replicate_of_neg (by simp), List.append_nil, List.append_nil] at hfilter
  exact hfilter

end Rego

namespace BindingSet

-- What the resolution of references needs to know about a set of bindings.
structure Valid (b : BindingSet) : Prop where
  path : ∀ binding ∈ b.fields, validPath binding.source
  nodup : (b.fields.map (·.source)).Nodup

theorem validateFields_eq_ok {limits : Limits} {previous fields : List Binding} {stringBytes n : Nat}
    (h : validateFields limits previous fields stringBytes = .ok n)
    (hp : (previous.map (·.source)).Nodup) :
    (∀ binding ∈ fields, validPath binding.source) ∧ ((previous ++ fields).map (·.source)).Nodup := by
  induction fields generalizing previous stringBytes
  case nil => exact ⟨nofun, by rwa [List.append_nil]⟩
  case cons binding fields ih =>
    rw [validateFields] at h
    have ⟨hvalid, h⟩ := of_guard h
    have ⟨_, h⟩ := of_guard h
    have ⟨hnew, h⟩ := of_guard h
    have hnodup : ((previous ++ [binding]).map (·.source)).Nodup := by
      rw [List.map_append, List.nodup_append]
      refine ⟨hp, List.nodup_singleton _, fun source hm _ hs he => hnew ?_⟩
      have ⟨p, hm, hsource⟩ := List.mem_map.mp hm
      refine List.any_eq_true.mpr ⟨p, hm, ?_⟩
      rw [List.mem_singleton.mp hs] at he
      rw [hsource, he, beq_self_eq_true, Bool.true_or]
    have ⟨hpaths, hall⟩ := ih h hnodup
    rw [List.append_assoc, List.singleton_append] at hall
    refine ⟨List.forall_mem_cons.mpr ⟨?_, hpaths⟩, hall⟩
    simpa using (not_or.mp hvalid).1

theorem valid_of_validate {b : BindingSet} {limits : Limits} (h : b.validate limits = .ok ()) :
    b.Valid := by
  have ⟨_, h⟩ := of_guard h
  have ⟨_, h⟩ := of_guard h
  have ⟨_, h⟩ := of_guard h
  have ⟨_, hfields, _⟩ := of_bind h
  have ⟨hpaths, hnodup⟩ := validateFields_eq_ok hfields List.nodup_nil
  exact ⟨hpaths, hnodup⟩

end BindingSet

namespace Rego

variable {bindings : BindingSet} {ref : List Term}

theorem boundRow_resolved {row id : Nat} {fields : List Binding}
    (hone : fields.Pairwise fun a b => ¬(refMatchesPath ref a.source ∧ refMatchesPath ref b.source)) :
    (boundRow ref row fields).resolved = some id ↔
      ∃ i binding, fields[i]? = some binding ∧ refMatchesPath ref binding.source ∧ id = row + i + 1 := by
  induction fields generalizing row
  case nil => simp [boundRow, Bound.resolved]
  case cons binding fields ih =>
    have ⟨hfirst, hone⟩ := List.pairwise_cons.mp hone
    rw [boundRow]
    split
    case isTrue hm =>
      constructor
      case mp =>
        intro h
        exact ⟨0, binding, rfl, hm, (Option.some.inj h).symm⟩
      case mpr =>
        rintro ⟨i, other, hi, hmatch, rfl⟩
        cases i
        case zero => rfl
        case succ i => exact absurd ⟨hm, hmatch⟩ (hfirst other (List.mem_of_getElem? hi))
    case isFalse hm =>
      rw [ih hone]
      constructor
      case mp =>
        rintro ⟨i, other, hi, hmatch, rfl⟩
        exact ⟨i + 1, other, hi, hmatch, by omega⟩
      case mpr =>
        rintro ⟨i, other, hi, hmatch, rfl⟩
        cases i
        case zero =>
          cases hi
          exact absurd hmatch hm
        case succ i => exact ⟨i, other, hi, hmatch, by omega⟩

theorem boundField_resolved (valid : bindings.Valid) {parts : List (List Byte)} {id : Nat} :
    (boundField (reference parts) bindings).resolved = some id ↔
      ∃ i binding, bindings.fields[i]? = some binding ∧ id = i + 1 ∧
        ∃ n, bytes "input" :: parts = segments binding.source ++ List.replicate n [] := by
  have hone : bindings.fields.Pairwise fun a b =>
      ¬(refMatchesPath (reference parts) a.source ∧ refMatchesPath (reference parts) b.source) := by
    refine (List.pairwise_map.mp valid.nodup).imp_of_mem fun {a b} ha hb hne hm => hne ?_
    have ⟨n, hn⟩ := (refMatchesPath_iff (valid.path a ha)).mp hm.1
    have ⟨m, hm⟩ := (refMatchesPath_iff (valid.path b hb)).mp hm.2
    exact segments_injective (segments_eq_of_append_replicate (hn.symm.trans hm)
      (remaining_of_validPath (valid.path a ha)).2 (remaining_of_validPath (valid.path b hb)).2)
  have hbound : boundField (reference parts) bindings = boundRow (reference parts) 0 bindings.fields := by
    simp [boundField, reference]
  rw [hbound, boundRow_resolved hone]
  refine exists_congr fun i => exists_congr fun binding => and_congr_right fun hi => ?_
  rw [refMatchesPath_iff (valid.path binding (List.mem_of_getElem? hi)), Nat.zero_add, and_comm]

def Exact (bindings : BindingSet) (parts : List (List Byte)) : Prop :=
  ∀ id, (boundField (reference parts) bindings).resolved = some id ↔
    ∃ i binding, bindings.fields[i]? = some binding ∧ id = i + 1 ∧
      segments binding.source = bytes "input" :: parts

-- References are resolved exactly, but for those that add empty parts to the path of a field.
theorem reference_exact_iff {limits : Limits} (h : bindings.validate limits = .ok ()) (parts : List (List Byte)) :
    Exact bindings parts ↔ ∀ binding ∈ bindings.fields, ∀ n,
      bytes "input" :: parts ≠ segments binding.source ++ List.replicate (n + 1) [] := by
  have valid := BindingSet.valid_of_validate h
  constructor
  case mp =>
    intro hexact binding hm n hn
    have ⟨i, hi⟩ := List.getElem?_of_mem hm
    have ⟨_, _, hj, he, hs⟩ := (hexact (i + 1)).mp
      ((boundField_resolved valid).mpr ⟨i, binding, hi, rfl, n + 1, hn⟩)
    cases Nat.succ.inj he
    cases hi.symm.trans hj
    have := congrArg List.length (hs.trans hn)
    rw [List.length_append, List.length_replicate] at this
    omega
  case mpr =>
    intro hnone id
    rw [boundField_resolved valid]
    refine exists_congr fun i => exists_congr fun binding => and_congr_right fun hi =>
      and_congr_right fun _ => ?_
    constructor
    case mp =>
      rintro ⟨n, hn⟩
      cases n
      case zero => rw [hn, List.replicate_zero, List.append_nil]
      case succ n => exact absurd hn (hnone binding (List.mem_of_getElem? hi) n)
    case mpr =>
      intro hs
      exact ⟨0, by rw [hs, List.replicate_zero, List.append_nil]⟩

def userBindings : BindingSet where
  name := bytes "p"
  version := bytes "1"
  decision := bytes "allow"
  fields := [⟨bytes "input.user", bytes "user", .boolean, .subject⟩]

theorem reference_exact_user : Exact userBindings [bytes "user"] := by
  have h : userBindings.validate .default = .ok () := by decide +kernel
  refine (reference_exact_iff h _).mpr fun binding hm n hn => ?_
  cases List.mem_singleton.mp hm
  have hlen : (segments (bytes "input.user")).length = 2 := by decide
  have := congrArg List.length hn
  rw [List.length_append, List.length_replicate, hlen] at this
  simp at this

theorem empty_part_resolved : userBindings.validate .default = .ok () ∧
    (boundField (reference [bytes "user", []]) userBindings).resolved = some 1 ∧
      segments (bytes "input.user") = [bytes "input", bytes "user"] := by
  decide +kernel

end Rego
end NornRune.Frontend
