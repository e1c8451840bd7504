import NornRune.Diff.Regression
import NornRune.Lib.Delimited
import Mathlib.Data.Set.Function

open Wire (Delimited)

namespace NornRune.Diff

abbrev Small {α : Type} (xs : List α) : Prop := xs.length < 256 ^ 4

section Encoding

def encodeText (value : List Byte) : List Byte :=
  Wire.put 4 value.length ++ value

def encodeField (f : CandidateField) : List Byte :=
  encodeText f.name ++ (encodeText f.value.string ++ (Wire.put 8 f.value.integer.toNat ++
    [f.value.state.code, f.value.kind.code, if f.value.boolean then 1#8 else 0#8]))

def encodeEvidence (record : Evidence) : List Byte :=
  encodeText record.kind ++ (encodeText record.state ++ (encodeText record.subject ++ (encodeText record.scope ++
    encodeText record.timing)))

def encodeWord (value : BitVec 32) : List Byte :=
  Wire.put 4 value.toNat

def encodeEvaluation (e : Evaluation) : List Byte :=
  Wire.put 8 e.index.toNat ++ (e.words.flatMap encodeWord ++ (e.lists.flatMap (Wire.counted 4 encodeWord) ++
    (digestBytes e.assumptionsDigest ++ (digestBytes e.driverTemplatesDigest ++
      digestBytes e.evidenceIssuesDigest))))

def encodeCounterexample (c : Counterexample) : List Byte :=
  Wire.put 8 c.index.toNat ++ (Wire.counted 4 encodeField c.fields ++ (Wire.counted 4 encodeEvidence c.evidence ++
    (encodeEvaluation c.old ++ encodeEvaluation c.new)))

theorem foldl_eq_append {α : Type} {step : List Byte → α → List Byte} {f : α → List Byte}
    (h : ∀ dst a, step dst a = dst ++ f a) (as : List α) (dst : List Byte) :
    as.foldl step dst = dst ++ as.flatMap f := by
  induction as generalizing dst
  case nil => simp
  case cons a as ih => rw [List.foldl_cons, ih, h, List.flatMap_cons, List.append_assoc]

theorem appendText_eq (dst value : List Byte) : appendText dst value = dst ++ encodeText value := by
  rw [appendText, appendUint32, encodeText, List.append_assoc]

theorem appendField_eq (dst : List Byte) (f : CandidateField) : appendField dst f = dst ++ encodeField f := by
  simp only [appendField, appendText_eq, appendUint64, encodeField]
  split <;> simp

theorem appendWords_eq (values : List (BitVec 32)) (dst : List Byte) :
    values.foldl (fun dst value => appendUint32 dst value.toNat) dst = dst ++ values.flatMap encodeWord :=
  foldl_eq_append (fun _ _ => rfl) values dst

variable (dst : List Byte)
include dst

theorem appendIDs_eq (values : List (BitVec 32)) :
    appendIDs dst values = dst ++ Wire.counted 4 encodeWord values := by
  rw [appendIDs, appendWords_eq, appendUint32, Wire.counted, List.append_assoc]

theorem appendEvaluation_eq (e : Evaluation) :
    appendEvaluation dst e = dst ++ encodeEvaluation e := by
  simp only [appendEvaluation, appendUint64, encodeEvaluation, appendWords_eq, foldl_eq_append appendIDs_eq,
    List.append_assoc]

theorem appendEvidence_eq (record : Evidence) :
    appendEvidence dst record = dst ++ encodeEvidence record := by
  simp only [appendEvidence, appendText_eq, encodeEvidence, List.append_assoc]

theorem appendCounterexample_eq (c : Counterexample) :
    appendCounterexample dst c = dst ++ encodeCounterexample c := by
  simp only [appendCounterexample, appendUint64, appendUint32, appendFields,
    foldl_eq_append appendField_eq, foldl_eq_append appendEvidence_eq, appendEvaluation_eq,
    encodeCounterexample, Wire.counted, List.append_assoc]

end Encoding

section Delimited

theorem delimited_byte : Delimited (fun _ => True) fun b : Byte => [b] :=
  .fixed (fun _ _ => rfl) fun _ _ _ _ h => List.singleton_inj.mp h

theorem delimited_text : Delimited Small encodeText := by
  have h := delimited_byte.counted 4
  intro a b ha hb xs ys hab
  refine h a b ⟨ha, fun _ _ => trivial⟩ ⟨hb, fun _ _ => trivial⟩ xs ys ?_
  simpa only [Wire.counted, encodeText, List.flatMap_singleton'] using hab

theorem delimited_bits {n width : Nat} (h : 2 ^ n ≤ 256 ^ width) :
    Delimited (fun _ => True) fun b : BitVec n => Wire.put width b.toNat := by
  intro a b _ _ xs ys hab
  have ⟨hab, hxy⟩ := Wire.delimited_put width _ _ (Nat.lt_of_lt_of_le a.isLt h)
    (Nat.lt_of_lt_of_le b.isLt h) xs ys hab
  exact ⟨BitVec.eq_of_toNat_eq hab, hxy⟩

theorem delimited_index : Delimited (fun _ => True) fun b : BitVec 64 => Wire.put 8 b.toNat :=
  delimited_bits (by decide)

theorem delimited_word : Delimited (fun _ => True) encodeWord :=
  delimited_bits (by decide)

theorem delimited_digest : Delimited (fun _ => True) digestBytes :=
  delimited_bits (by decide)

def CandidateField.Fits (f : CandidateField) : Prop :=
  Small f.name ∧ Small f.value.string

structure Evidence.Fits (record : Evidence) : Prop where
  kind : Small record.kind
  state : Small record.state
  subject : Small record.subject
  scope : Small record.scope
  timing : Small record.timing

def Evaluation.Fits (e : Evaluation) : Prop :=
  ∀ ids ∈ e.lists, Small ids

structure Counterexample.Fits (c : Counterexample) : Prop where
  fields : Small c.fields ∧ ∀ f ∈ c.fields, f.Fits
  evidence : Small c.evidence ∧ ∀ record ∈ c.evidence, record.Fits
  old : c.old.Fits
  new : c.new.Fits

theorem eq_of_flag {a b : Bool} (h : (if a then 1#8 else 0#8) = if b then 1#8 else 0#8) : a = b := by
  cases a <;> cases b <;> simp at h <;> rfl

theorem delimited_field : Delimited CandidateField.Fits encodeField := by
  intro ⟨name, ⟨string, integer, ⟨state⟩, ⟨kind⟩, boolean⟩⟩
    ⟨name', ⟨string', integer', ⟨state'⟩, ⟨kind'⟩, boolean'⟩⟩ ha hb xs ys h
  simp only [encodeField, List.append_assoc] at h
  have ⟨hname, h⟩ := delimited_text _ _ ha.1 hb.1 _ _ h
  have ⟨hstring, h⟩ := delimited_text _ _ ha.2 hb.2 _ _ h
  have ⟨hinteger, h⟩ := delimited_index _ _ trivial trivial _ _ h
  simp only [List.cons_append, List.nil_append, List.cons.injEq] at h
  have ⟨hstate, hkind, hflag, hxy⟩ := h
  have hboolean := eq_of_flag hflag
  simp only at hname hstring hinteger
  subst hname hstring hinteger hstate hkind hboolean
  exact ⟨rfl, hxy⟩

theorem delimited_evidence : Delimited Evidence.Fits encodeEvidence := by
  intro ⟨kind, state, subject, scope, timing⟩ ⟨kind', state', subject', scope', timing'⟩ ha hb xs ys h
  simp only [encodeEvidence, List.append_assoc] at h
  have ⟨hkind, h⟩ := delimited_text _ _ ha.kind hb.kind _ _ h
  have ⟨hstate, h⟩ := delimited_text _ _ ha.state hb.state _ _ h
  have ⟨hsubject, h⟩ := delimited_text _ _ ha.subject hb.subject _ _ h
  have ⟨hscope, h⟩ := delimited_text _ _ ha.scope hb.scope _ _ h
  have ⟨htiming, hxy⟩ := delimited_text _ _ ha.timing hb.timing _ _ h
  simp only at hkind hstate hsubject hscope htiming
  subst hkind hstate hsubject hscope htiming
  exact ⟨rfl, hxy⟩

theorem Evaluation.ext_parts {a b : Evaluation} (index : a.index = b.index) (words : a.words = b.words)
    (lists : a.lists = b.lists) (assumptions : a.assumptionsDigest = b.assumptionsDigest)
    (templates : a.driverTemplatesDigest = b.driverTemplatesDigest)
    (issues : a.evidenceIssuesDigest = b.evidenceIssuesDigest) : a = b := by
  have hcode {c d : Byte} (h : c.setWidth 32 = d.setWidth 32) : c = d := by
    have := congrArg (BitVec.setWidth 8) h
    simpa using this
  simp only [Evaluation.words, List.cons.injEq, and_true] at words
  have ⟨hstart, hend, houtcome, hdecision⟩ := words
  have hdecision : a.decision = b.decision := congrArg Decision.mk (hcode hdecision)
  simp only [Evaluation.lists, List.cons.injEq, and_true] at lists
  cases a
  cases b
  simp_all only

theorem delimited_evaluation : Delimited Evaluation.Fits encodeEvaluation := by
  intro a b ha hb xs ys h
  simp only [encodeEvaluation, List.append_assoc] at h
  have ⟨hindex, h⟩ := delimited_index _ _ trivial trivial _ _ h
  have ⟨hwords, h⟩ := delimited_word.many 4 _ _ ⟨rfl, fun _ _ => trivial⟩ ⟨rfl, fun _ _ => trivial⟩ _ _ h
  have ⟨hlists, h⟩ := (delimited_word.counted 4).many 12 _ _
    ⟨rfl, fun ids hids => ⟨ha ids hids, fun _ _ => trivial⟩⟩
    ⟨rfl, fun ids hids => ⟨hb ids hids, fun _ _ => trivial⟩⟩ _ _ h
  have ⟨hassumptions, h⟩ := delimited_digest _ _ trivial trivial _ _ h
  have ⟨htemplates, h⟩ := delimited_digest _ _ trivial trivial _ _ h
  have ⟨hissues, hxy⟩ := delimited_digest _ _ trivial trivial _ _ h
  exact ⟨Evaluation.ext_parts hindex hwords hlists hassumptions htemplates hissues, hxy⟩

theorem delimited_counterexample : Delimited Counterexample.Fits encodeCounterexample := by
  intro a b ha hb xs ys h
  simp only [encodeCounterexample, List.append_assoc] at h
  have ⟨hindex, h⟩ := delimited_index _ _ trivial trivial _ _ h
  have ⟨hfields, h⟩ := delimited_field.counted 4 _ _ ha.fields hb.fields _ _ h
  have ⟨hevidence, h⟩ := delimited_evidence.counted 4 _ _ ha.evidence hb.evidence _ _ h
  have ⟨hold, h⟩ := delimited_evaluation _ _ ha.old hb.old _ _ h
  have ⟨hnew, hxy⟩ := delimited_evaluation _ _ ha.new hb.new _ _ h
  obtain ⟨fields, records, old, new, index⟩ := a
  simp only at hindex hfields hevidence hold hnew
  subst hindex hfields hevidence hold hnew
  exact ⟨rfl, hxy⟩

end Delimited

theorem appendCounterexample_injective {c c' : Counterexample} (h : c.Fits) (h' : c'.Fits)
    (heq : appendCounterexample [] c = appendCounterexample [] c') : c = c' := by
  rw [appendCounterexample_eq, appendCounterexample_eq] at heq
  exact delimited_counterexample.injective h h' heq

theorem forbiddenCandidates_eq_some {counts : List Nat} {candidates : Nat}
    (h : forbiddenCandidates counts = some candidates) : candidates = counts.sum := by
  have step (start : Nat) (h : counts.foldlM (fun candidates count =>
      if maxUint64 - candidates < count then none else some (candidates + count)) start =
        some candidates) : candidates = start + counts.sum := by
    clear * - h
    induction counts generalizing start
    case nil =>
      cases h
      rfl
    case cons count counts ih =>
      rw [List.foldlM_cons, Option.bind_eq_bind, Option.bind_eq_some_iff] at h
      have ⟨next, hnext, h⟩ := h
      have ⟨_, hnext⟩ := Checked.ite_eq_of_ne hnext nofun
      cases hnext
      rw [ih _ h, List.sum_cons, Nat.add_assoc]
  rw [step 0 h, Nat.zero_add]

structure Exception.Covers (exception : Exception) (sha256 : List Byte → Digest)
    (oldSource newSource : List Byte) (witness : Counterexample) (now : Int) : Prop where
  valid : validException exception = true
  unexpired : now < exception.expires
  old : exception.oldDigest = sha256 oldSource
  new : exception.newDigest = sha256 newSource
  digest : exception.witnessDigest = counterexampleDigest sha256 witness
  oldDecision : exception.oldDecision = witness.old.decision
  newDecision : exception.newDecision = witness.new.decision

section Gate

variable {sha256 : List Byte → Digest} {result : Result} {oldSource newSource : List Byte}
  {exceptions : List Exception} {now : Int}

theorem covers_iff {exception : Exception} {witness : Counterexample} :
    exception.covers sha256 oldSource newSource witness now = true ↔
      exception.Covers sha256 oldSource newSource witness now := by
  simp only [Exception.covers, Bool.and_eq_true, decide_eq_true_iff, beq_iff_eq]
  constructor
  · rintro ⟨⟨⟨⟨⟨⟨hvalid, hnow⟩, hold⟩, hnew⟩, hwitness⟩, hold'⟩, hnew'⟩
    exact ⟨hvalid, hnow, hold, hnew, hwitness, hold', hnew'⟩
  · rintro ⟨hvalid, hnow, hold, hnew, hwitness, hold', hnew'⟩
    exact ⟨⟨⟨⟨⟨⟨hvalid, hnow⟩, hold⟩, hnew⟩, hwitness⟩, hold'⟩, hnew'⟩

theorem checkRegression_allowed (hcomplete : result.complete) (hforbidden : result.forbidden)
    (h : (checkRegression sha256 result oldSource newSource exceptions now).allowed) :
    ((List.finRange 16).map result.forbiddenTransitions).sum = 1 ∧
      ∃ witness, result.forbiddenCounterexample = some witness ∧
        ∃ exception ∈ exceptions, exception.Covers sha256 oldSource newSource witness now := by
  rw [checkRegression] at h
  split at h
  case isTrue => cases h
  case isFalse =>
    rw [if_neg (by simp [hcomplete]), if_neg (by simp [hforbidden])] at h
    split at h
    case h_1 => cases h
    case h_2 candidates hcandidates =>
      split at h
      case isTrue => cases h
      case isFalse hone =>
        split at h
        case h_1 => cases h
        case h_2 witness hwitness =>
          split at h
          case h_1 => cases h
          case h_2 exception hfind =>
            have hsum := forbiddenCandidates_eq_some hcandidates
            have hcovers := List.find?_some hfind
            exact ⟨by rw [← hsum, not_not.mp hone], witness, hwitness, exception,
              List.mem_of_find?_eq_some hfind, covers_iff.mp hcovers⟩

end Gate

-- No two different strings are known that have the same digest. Then a comparison with a forbidden
-- transition passes only with an exception for the counterexample itself.
theorem checkRegression_exact (sha256 : List Byte → Digest) (known : Set (List Byte))
    (hcollision : Set.InjOn sha256 known) :
    (∀ c c' : Counterexample, c.Fits → c'.Fits →
      appendCounterexample [] c = appendCounterexample [] c' → c = c') ∧
    ∀ (result : Result) (oldSource newSource : List Byte) (exceptions : List Exception) (now : Int),
      result.complete → result.forbidden →
      (checkRegression sha256 result oldSource newSource exceptions now).allowed →
      ((List.finRange 16).map result.forbiddenTransitions).sum = 1 ∧
      ∃ witness, result.forbiddenCounterexample = some witness ∧
        ∃ exception ∈ exceptions, exception.Covers sha256 oldSource newSource witness now ∧
          ∀ named : Counterexample, named.Fits → witness.Fits →
            appendCounterexample [] named ∈ known → appendCounterexample [] witness ∈ known →
            exception.witnessDigest = counterexampleDigest sha256 named → named = witness := by
  refine ⟨fun c c' => appendCounterexample_injective, ?_⟩
  intro result oldSource newSource exceptions now hcomplete hforbidden h
  have ⟨hone, witness, hwitness, exception, hmem, covers⟩ :=
    checkRegression_allowed hcomplete hforbidden h
  refine ⟨hone, witness, hwitness, exception, hmem, covers, ?_⟩
  intro named hnamed hfits hknown hknown' hdigest
  have hsame := hdigest.symm.trans covers.digest
  exact appendCounterexample_injective hnamed hfits (hcollision hknown hknown' hsame)

-- A comparison in which one candidate is approved instead of rejected.
section Approval

def blank (decision : Decision) : Evaluation :=
  ⟨[], [], [], [], [], [], [], [], [], [], [], [], 0, 0, 0, 0, 0, 0, 0, decision⟩

def approvalOf (name : List Byte) : Counterexample :=
  ⟨[⟨name, ⟨[], 0, .present, .presence, false⟩⟩], [], blank .reject, blank .approve, 0⟩

theorem approvalOf_fits {name : List Byte} (h : name.length < 2 ^ 32) : (approvalOf name).Fits where
  fields := by simpa [approvalOf, CandidateField.Fits] using h
  evidence := by simp [approvalOf]
  old := by simp [approvalOf, blank, Evaluation.Fits, Evaluation.lists]
  new := by simp [approvalOf, blank, Evaluation.Fits, Evaluation.lists]

def approval : Counterexample := approvalOf (bytes "flag")

def lengthDigest (source : List Byte) : Digest :=
  BitVec.ofNat 256 source.length

def approved : Result where
  uncertainty := .none
  counterexample := some approval
  forbiddenCounterexample := some approval
  transitions := fun i => if i = 4 then 1 else 0
  forbiddenTransitions := fun i => if i = 4 then 1 else 0
  candidates := 1
  outcome := .widened
  complete := true
  forbidden := true

def approvalException : Exception where
  expires := 2
  id := bytes "x"
  reason := bytes "agreed"
  owner := bytes "owner"
  oldDigest := lengthDigest (bytes "old")
  newDigest := lengthDigest (bytes "newer")
  witnessDigest := counterexampleDigest lengthDigest approval
  oldDecision := .reject
  newDecision := .approve

-- Two counterexamples are known. The exception is for the one that was found, and not for the other.
theorem checkRegression_exact_approval :
    (checkRegression lengthDigest approved (bytes "old") (bytes "newer") [approvalException] 1).allowed =
      true ∧
    approvalException.witnessDigest ≠ counterexampleDigest lengthDigest (approvalOf (bytes "badge")) := by
  have hallowed : (checkRegression lengthDigest approved (bytes "old") (bytes "newer")
      [approvalException] 1).allowed = true := by
    have hcandidates :
        forbiddenCandidates ((List.finRange 16).map approved.forbiddenTransitions) = some 1 := by
      decide
    have hcovers : approvalException.covers lengthDigest (bytes "old") (bytes "newer") approval 1 = true :=
      covers_iff.mpr ⟨by decide, by decide, rfl, rfl, rfl, rfl, rfl⟩
    have hfind : [approvalException].find? (·.covers lengthDigest (bytes "old") (bytes "newer") approval 1) =
        some approvalException := by
      simp only [List.find?_cons, hcovers]
    simp only [checkRegression, hcandidates]
    simp only [approved, hfind]
    rfl
  have known : Set.InjOn lengthDigest {appendCounterexample [] approval,
      appendCounterexample [] (approvalOf (bytes "badge"))} := by
    rw [Set.injOn_pair]
    intro h
    exact absurd h (by decide +kernel)
  refine ⟨hallowed, fun heq => ?_⟩
  have hexact := (checkRegression_exact lengthDigest _ known).2 approved (bytes "old") (bytes "newer")
    [approvalException] 1 rfl rfl hallowed
  obtain ⟨_, witness, ⟨⟩, exception, hmem, _, h⟩ := hexact
  cases List.mem_singleton.mp hmem
  have hsame := h (approvalOf (bytes "badge")) (approvalOf_fits (by decide)) (approvalOf_fits (by decide))
    (.inr rfl) (.inl rfl) heq
  exact absurd hsame (by decide)

end Approval
end NornRune.Diff
