import NornRune.Target.Layout

open Wire

namespace NornRune

theorem validWidth_iff {width : Nat} :
    validWidth width ↔ width = 1 ∨ width = 2 ∨ width = 4 ∨ width = 8 := by
  simp only [validWidth, Bool.or_eq_true, beq_iff_eq, or_assoc]

theorem mod_of_le_maxUint64 {n : Nat} (h : n ≤ maxUint64) : n % 2 ^ 64 = n :=
  Nat.mod_eq_of_lt (Nat.lt_succ_of_le h)

-- Arithmetic that is refused where it would overflow.
theorem ite_mod_eq_some_iff {c : Prop} [Decidable c] {n t : Nat} (hc : c ↔ ¬n ≤ maxUint64) :
    (if c then none else some (n % 2 ^ 64)) = some t ↔ n ≤ maxUint64 ∧ n = t := by
  rw [Option.ite_none_left_eq_some, hc, not_not]
  exact and_congr_right fun h => by rw [mod_of_le_maxUint64 h, Option.some.injEq]

theorem checkedProduct_eq_some_iff {left right bytes : Nat} :
    checkedProduct left right = some bytes ↔ left * right ≤ maxUint64 ∧ left * right = bytes := by
  refine ite_mod_eq_some_iff ?_
  rcases Nat.eq_zero_or_pos left with rfl | hl
  · simp
  · rw [Nat.div_lt_iff_lt_mul hl, Nat.mul_comm right, Nat.not_le]
    exact and_iff_right hl.ne'

theorem and_pred_of_validWidth {alignment : Nat} (hw : validWidth alignment) (n : Nat) :
    n &&& (alignment - 1) = n % alignment := by
  rcases validWidth_iff.mp hw with rfl | rfl | rfl | rfl
  case inl => exact Nat.and_two_pow_sub_one_eq_mod n 0
  case inr.inl => exact Nat.and_two_pow_sub_one_eq_mod n 1
  case inr.inr.inl => exact Nat.and_two_pow_sub_one_eq_mod n 2
  case inr.inr.inr => exact Nat.and_two_pow_sub_one_eq_mod n 3

-- The next multiple of a width.
def roundUp (offset width : Nat) : Nat :=
  (offset + width - 1) / width * width

theorem le_roundUp {offset width : Nat} (hw : validWidth width) : offset ≤ roundUp offset width := by
  unfold roundUp
  rcases validWidth_iff.mp hw with rfl | rfl | rfl | rfl <;> omega

theorem alignOffset_eq_some_iff {offset width t : Nat} (hw : validWidth width) (ho : offset ≤ maxUint64) :
    alignOffset offset width = some t ↔ roundUp offset width ≤ maxUint64 ∧ roundUp offset width = t := by
  have hpad : offset + (2 ^ 64 - offset) % 2 ^ 64 % width = roundUp offset width := by
    simp only [roundUp, maxUint64] at *
    rcases validWidth_iff.mp hw with rfl | rfl | rfl | rfl <;> omega
  simp only [alignOffset, and_pred_of_validWidth hw]
  rw [hpad]
  exact ite_mod_eq_some_iff (by omega)

variable {e e' : Extent} {s : SectionSpec} {ss : List SectionSpec} {d : SectionDescriptor}
  {length : Nat} {ds : List SectionDescriptor} {src : List Byte}

structure Extent.Added (e : Extent) (s : SectionSpec) (e' : Extent) : Prop where
  id : e.previousID < s.id
  width : validWidth s.width
  bytes : s.count * s.width = s.data.length
  total : roundUp e.total s.width + s.data.length ≤ maxUint64
  extent : e' = ⟨s.id, roundUp e.total s.width + s.data.length⟩

theorem Extent.add_eq_some_iff (ht : e.total ≤ maxUint64) : e.add s = some e' ↔ e.Added s e' := by
  simp only [Extent.add, Option.ite_none_left_eq_some, not_or, Nat.not_le, Bool.not_eq_true',
    Bool.not_eq_false, Option.bind_eq_bind, Option.bind_eq_some_iff, checkedProduct_eq_some_iff, not_not]
  constructor
  case mp =>
    rintro ⟨⟨_, hid, hw⟩, _, ⟨_, rfl⟩, hb, t, ha, hlt, he⟩
    obtain ⟨_, rfl⟩ := (alignOffset_eq_some_iff hw ht).mp ha
    rw [hb] at hlt he
    rw [mod_of_le_maxUint64 (by omega)] at he
    exact ⟨hid, hw, hb, by omega, (Option.some.inj he).symm⟩
  case mpr =>
    rintro ⟨hid, hw, hb, hle, rfl⟩
    refine ⟨⟨by omega, hid, hw⟩, _, ⟨by omega, rfl⟩, hb, _,
      (alignOffset_eq_some_iff hw ht).mpr ⟨by omega, rfl⟩, by omega, ?_⟩
    rw [hb, mod_of_le_maxUint64 hle]

theorem Extent.adds_cons (ht : e.total ≤ maxUint64) : (s :: ss).foldlM Extent.add e = some e' ↔
    ∃ e₁, e.Added s e₁ ∧ ss.foldlM Extent.add e₁ = some e' := by
  simp only [List.foldlM_cons, Option.bind_eq_bind, Option.bind_eq_some_iff, add_eq_some_iff ht]

theorem Extent.Added.offset (h : e.Added s e') (ht : e.total ≤ maxUint64) :
    (s.descriptor e.total).offset = roundUp e.total s.width := by
  have := h.total
  rw [SectionSpec.descriptor, (alignOffset_eq_some_iff h.width ht).mpr ⟨by omega, rfl⟩, Option.getD_some]

theorem Extent.le_of_adds (h : ss.foldlM Extent.add e = some e') (ht : e.total ≤ maxUint64) :
    e.total ≤ e'.total ∧ e'.total ≤ maxUint64 := by
  induction ss generalizing e
  case nil =>
    cases h
    exact ⟨Nat.le_refl _, ht⟩
  case cons s ss ih =>
    obtain ⟨_, ⟨_, hw, _, ht₁, rfl⟩, h⟩ := (adds_cons ht).mp h
    have ⟨hle', ht'⟩ := ih h ht₁
    exact ⟨Nat.le_trans (Nat.le_trans (le_roundUp hw) (Nat.le_add_right ..)) hle', ht'⟩

-- Where the last section ends, if each of them is aligned to its width.
def laidOut (start : Nat) (ss : List SectionSpec) : Nat :=
  ss.foldl (fun stop s => roundUp stop s.width + s.count * s.width) start

theorem le_laidOut (hw : ∀ s ∈ ss, validWidth s.width) (start : Nat) : start ≤ laidOut start ss := by
  induction ss generalizing start
  case nil => exact Nat.le_refl _
  case cons s ss ih =>
    have ⟨hs, hw⟩ := List.forall_mem_cons.mp hw
    exact Nat.le_trans (Nat.le_trans (le_roundUp hs) (Nat.le_add_right ..)) (ih hw _)

theorem Extent.exists_adds (ids : (e.previousID :: ss.map (·.id)).Pairwise (· < ·))
    (hw : ∀ s ∈ ss, validWidth s.width) (hd : ∀ s ∈ ss, s.data.length = s.count * s.width)
    (ht : laidOut e.total ss ≤ maxUint64) :
    ∃ e', ss.foldlM Extent.add e = some e' ∧ e'.total = laidOut e.total ss := by
  induction ss generalizing e
  case nil => exact ⟨e, rfl, rfl⟩
  case cons s ss ih =>
    have ⟨hs, hw⟩ := List.forall_mem_cons.mp hw
    have ⟨hlen, hd⟩ := List.forall_mem_cons.mp hd
    have ⟨hid, ids⟩ := List.pairwise_cons.mp ids
    have hid := hid s.id List.mem_cons_self
    have hle : roundUp e.total s.width + s.count * s.width ≤ maxUint64 :=
      Nat.le_trans (le_laidOut hw _) ht
    have hstart : e.total ≤ maxUint64 := Nat.le_trans (le_roundUp hs) (by omega)
    have ⟨e', he, htotal⟩ := @ih ⟨s.id, _⟩ ids hw hd ht
    exact ⟨e', (adds_cons hstart).mpr ⟨_, ⟨hid, hs, hlen.symm, hlen ▸ hle, by rw [hlen]⟩, he⟩, htotal⟩

def placements : Nat → List SectionSpec → List SectionDescriptor
  | _, [] => []
  | offset, s :: ss =>
    s.descriptor offset :: placements ((s.descriptor offset).offset + s.data.length) ss

@[simp]
theorem length_placements (offset : Nat) (ss : List SectionSpec) :
    (placements offset ss).length = ss.length := by
  induction ss generalizing offset
  case nil => rfl
  case cons s ss ih => rw [placements, List.length_cons, ih, List.length_cons]

theorem Extent.Added.placements (h : e.Added s e') (ht : e.total ≤ maxUint64) (ss : List SectionSpec) :
    placements e.total (s :: ss) = s.descriptor e.total :: NornRune.placements e'.total ss := by
  rw [NornRune.placements, h.offset ht, h.extent]

theorem le_offset_of_mem_placements (h : ss.foldlM Extent.add e = some e')
    (ht : e.total ≤ maxUint64) (hd : d ∈ placements e.total ss) : e.total ≤ d.offset := by
  induction ss generalizing e
  case nil => cases hd
  case cons s ss ih =>
    have ⟨e₁, added, h⟩ := (Extent.adds_cons ht).mp h
    have hle : e.total ≤ roundUp e.total s.width := le_roundUp added.width
    rw [added.placements ht] at hd
    rcases List.mem_cons.mp hd with rfl | hd
    case inl => rwa [added.offset ht]
    case inr =>
      obtain ⟨_, _, _, ht₁, rfl⟩ := added
      exact Nat.le_trans (Nat.le_trans hle (Nat.le_add_right ..)) (ih h ht₁ hd)

theorem place_placements (h : ss.foldlM Extent.add e = some e') (ht : e.total ≤ maxUint64)
    (hl : e'.total ≤ length) :
    (placements e.total ss).foldlM (Placed.add length) ⟨e.previousID, e.total⟩ =
      some ⟨e'.previousID, e'.total⟩ := by
  induction ss generalizing e
  case nil =>
    cases h
    rfl
  case cons s ss ih =>
    have ⟨e₁, added, h⟩ := (Extent.adds_cons ht).mp h
    have hoffset := added.offset ht
    rw [added.placements ht]
    obtain ⟨hid, hw, hbytes, ht₁, rfl⟩ := added
    have ⟨hle', _⟩ := Extent.le_of_adds h ht₁
    have hle : e.total ≤ roundUp e.total s.width := le_roundUp hw
    have hadd : Placed.add length ⟨e.previousID, e.total⟩ (s.descriptor e.total) =
        some ⟨s.id, roundUp e.total s.width + s.data.length⟩ := by
      rw [Placed.add, if_neg]
      · simp only [SectionSpec.descriptor] at *
        rw [hoffset, mod_of_le_maxUint64 ht₁]
      · simp only [not_or, not_not, Nat.not_lt, Nat.not_le, Bool.not_eq_true', Bool.not_eq_false,
          checkedProduct_eq_some_iff, hoffset]
        simp only [SectionSpec.descriptor] at *
        exact ⟨by omega, hid, hw, trivial, ⟨by omega, hbytes⟩, Nat.mul_mod_left .., hle, by omega, by omega⟩
    rw [List.foldlM_cons, hadd, Option.bind_eq_bind, Option.bind_some]
    exact ih h ht₁

-- What a reader may rely on: sections behind an offset that lie within the bytes, one after another.
structure Laid (start length : Nat) (ds : List SectionDescriptor) : Prop where
  within : ∀ d ∈ ds, start ≤ d.offset ∧ d.offset + d.bytes ≤ length
  aligned : ∀ d ∈ ds, validWidth d.width ∧ d.alignment = d.width ∧ d.offset % d.width = 0
  sized : ∀ d ∈ ds, d.bytes = d.count * d.width
  ordered : ds.Pairwise fun d d' => d.id < d'.id ∧ d.offset + d.bytes ≤ d'.offset

theorem Placed.add_eq_some {p p' : Placed} (h : p.add length d = some p') (hl : length < 2 ^ 64) :
    p' = ⟨d.id, d.offset + d.bytes⟩ ∧ p.previousID < d.id ∧
      p.previousEnd ≤ d.offset ∧ Laid p.previousEnd length [d] := by
  unfold Placed.add at h
  have ⟨hc, h⟩ := Checked.ite_eq_of_ne h nofun
  simp only [not_or, not_not, Nat.not_lt, Nat.not_le, Bool.not_eq_true', Bool.not_eq_false] at hc
  have ⟨_, hid, hw, ha, hp, hm, hs, hle, hb⟩ := hc
  rw [Nat.mod_eq_of_lt (by omega)] at h
  refine ⟨(Option.some.inj h).symm, hid, hs, ?_, ?_, ?_, List.pairwise_singleton ..⟩
  all_goals
    intro d' hd
    cases List.mem_singleton.mp hd
  · exact ⟨hs, by omega⟩
  · exact ⟨hw, ha, ha ▸ hm⟩
  · exact (checkedProduct_eq_some_iff.mp hp).2.symm

theorem laid_of_adds {p p' : Placed} (h : ds.foldlM (Placed.add length) p = some p')
    (hl : length < 2 ^ 64) :
    Laid p.previousEnd length ds ∧ ∀ d ∈ ds, p.previousID < d.id := by
  induction ds generalizing p
  case nil => exact ⟨⟨nofun, nofun, nofun, .nil⟩, nofun⟩
  case cons d ds ih =>
    rw [List.foldlM_cons, Option.bind_eq_bind, Option.bind_eq_some_iff] at h
    have ⟨p₁, hd, h⟩ := h
    have ⟨hp₁, hid, hs, first⟩ := Placed.add_eq_some hd hl
    have ⟨rest, hids⟩ := ih h
    subst hp₁
    have hstart : p.previousEnd ≤ d.offset + d.bytes := Nat.le_trans hs (Nat.le_add_right ..)
    have hfirst {q : SectionDescriptor → Prop} (hq : ∀ d' ∈ [d], q d') : q d :=
      hq d List.mem_cons_self
    refine ⟨⟨?_, ?_, ?_, ?_⟩, List.forall_mem_cons.mpr ⟨hid, fun d' hd' => ?_⟩⟩
    · exact List.forall_mem_cons.mpr ⟨hfirst first.within, fun d' hd' =>
        ⟨Nat.le_trans hstart (rest.within d' hd').1, (rest.within d' hd').2⟩⟩
    · exact List.forall_mem_cons.mpr ⟨hfirst first.aligned, rest.aligned⟩
    · exact List.forall_mem_cons.mpr ⟨hfirst first.sized, rest.sized⟩
    · exact List.pairwise_cons.mpr ⟨fun d' hd' => ⟨hids d' hd', (rest.within d' hd').1⟩, rest.ordered⟩
    · exact Nat.lt_trans hid (hids d' hd')

theorem laid_of_preflightDescriptors {headerBytes sectionCount start : Nat}
    (h : preflightDescriptors src headerBytes sectionCount start = some ds)
    (hl : src.length < 2 ^ 64) : ds.length = sectionCount ∧ Laid start src.length ds := by
  rw [preflightDescriptors, Option.bind_eq_bind, Option.bind_eq_some_iff] at h
  have ⟨p, hp, h⟩ := h
  have ⟨_, h⟩ := Checked.ite_eq_of_ne h nofun
  cases h
  exact ⟨by rw [List.length_map, List.length_range], (laid_of_adds hp hl).1⟩

theorem descriptorEnd_of_preflightHeader {sha : Digest} {f : Format} {header : ArtifactHeader}
    {stop : Nat} (h : preflightHeader sha src f = some (header, stop)) :
    stop = descriptorOffset f.headerBytes header.sectionCount ∧ src.length < 2 ^ 64 := by
  unfold preflightHeader at h
  have ⟨_, h⟩ := Checked.ite_eq_of_ne h nofun
  simp only at h
  have ⟨hc, h⟩ := Checked.ite_eq_of_ne h nofun
  have ⟨_, h⟩ := Checked.ite_eq_of_ne h nofun
  cases h
  -- The length is stored in eight bytes of the header.
  rw [not_or, not_not] at hc
  exact ⟨rfl, hc.1 ▸ word_lt ..⟩

theorem descriptorOffset_mono (headerBytes : Nat) {m n : Nat} (h : m ≤ n) :
    descriptorOffset headerBytes m ≤ descriptorOffset headerBytes n :=
  Nat.add_le_add_left (Nat.mul_le_mul_right _ h) _

section Descriptors

variable {artifact artifact' : List Byte} {start : Nat} {d : SectionDescriptor}

@[simp]
theorem length_putDescriptor : (putDescriptor artifact start d).length = artifact.length := by
  simp [putDescriptor]

structure SectionDescriptor.Fits (d : SectionDescriptor) : Prop where
  id : d.id < 2 ^ 16
  width : d.width < 2 ^ 8
  alignment : d.alignment < 2 ^ 8
  count : d.count < 2 ^ 32
  offset : d.offset < 2 ^ 64
  bytes : d.bytes < 2 ^ 64

theorem getDescriptor_putDescriptor (fits : d.Fits) (h : start + artifactDescriptorBytes ≤ artifact.length) :
    getDescriptor (putDescriptor artifact start d) start = d := by
  have ⟨hid, hw, ha, hc, ho, hb⟩ := fits
  simp only [artifactDescriptorBytes] at h
  simp only [getDescriptor, putDescriptor]
  simp (disch := first | omega | (simp only [length_putWord]; omega)) only
    [word_putWord, word_putWord_self]

theorem read_putDescriptor {i n : Nat} (h : i + n ≤ start ∨ start + artifactDescriptorBytes ≤ i) :
    Region.read (putDescriptor artifact start d) i n = Region.read artifact i n := by
  simp only [artifactDescriptorBytes] at h
  simp only [putDescriptor]
  simp (disch := omega) only [read_putWord]

theorem getDescriptor_congr (h : ∀ i n, start ≤ i → i + n ≤ start + artifactDescriptorBytes →
    Region.read artifact' i n = Region.read artifact i n) :
    getDescriptor artifact' start = getDescriptor artifact start := by
  simp only [artifactDescriptorBytes] at h
  simp only [getDescriptor, word]
  simp (disch := omega) only [h]

end Descriptors

-- The contents of sections that were written: the table holds their placements, the placements hold
-- their data, and all other bytes are as before.
structure Written (headerBytes row : Nat) (e e' : Extent) (ss : List SectionSpec)
    (artifact result : List Byte) : Prop where
  length : result.length = artifact.length
  frame : ∀ i n,
    i + n ≤ descriptorOffset headerBytes row ∨ descriptorOffset headerBytes (row + ss.length) ≤ i →
    i + n ≤ e.total ∨ e'.total ≤ i → Region.read result i n = Region.read artifact i n
  table : (List.range ss.length).map (fun j =>
    getDescriptor result (descriptorOffset headerBytes (row + j))) = placements e.total ss
  data : (placements e.total ss).map (fun d => Region.read result d.offset d.bytes) = ss.map (·.data)

structure SectionSpec.Fits (s : SectionSpec) : Prop where
  id : s.id < 2 ^ 16
  count : s.count < 2 ^ 32

theorem written_putSections {headerBytes row : Nat} {e e' : Extent} {ss : List SectionSpec}
    {artifact : List Byte} (h : ss.foldlM Extent.add e = some e') (ht : e.total ≤ maxUint64)
    (fits : ∀ s ∈ ss, s.Fits) (htable : descriptorOffset headerBytes (row + ss.length) ≤ e.total)
    (hl : e'.total ≤ artifact.length) :
    Written headerBytes row e e' ss artifact (putSections headerBytes row e.total ss artifact) := by
  induction ss generalizing e row artifact
  case nil => exact ⟨rfl, fun _ _ _ _ => rfl, rfl, rfl⟩
  case cons s ss ih =>
    have ⟨e₁, added, h⟩ := (Extent.adds_cons ht).mp h
    have ht₁ : e₁.total ≤ maxUint64 := added.extent ▸ added.total
    have ⟨hle₁, hmax⟩ := Extent.le_of_adds h ht₁
    have ⟨hid, hcount⟩ := fits s List.mem_cons_self
    let d := s.descriptor e.total
    have hoffset : d.offset = roundUp e.total s.width := added.offset ht
    have hle : e.total ≤ d.offset := hoffset ▸ le_roundUp added.width
    have hend : d.offset + s.data.length = e₁.total := by rw [hoffset, added.extent]
    have hdesc : d.Fits := by
      have hw : s.width < 2 ^ 8 := by
        have := validWidth_iff.mp added.width
        omega
      simp only [maxUint64] at hmax ht₁
      exact ⟨hid, hw, hw, hcount, by omega, by change s.data.length < _; omega⟩
    have hrow : descriptorOffset headerBytes row + artifactDescriptorBytes =
        descriptorOffset headerBytes (row + 1) := by
      simp only [descriptorOffset]
      ring
    have hmono := descriptorOffset_mono headerBytes (Nat.le_add_right (row + 1) ss.length)
    rw [List.length_cons, ← Nat.add_assoc, Nat.add_right_comm] at htable
    let a₁ := putDescriptor artifact (descriptorOffset headerBytes row) d
    let a₂ := Region.write a₁ d.offset s.data
    have hlen₂ : a₂.length = artifact.length := by simp [a₂, a₁]
    have written := @ih (row + 1) e₁ a₂ h ht₁ (fun s hm => fits s (List.mem_cons_of_mem _ hm))
      (by omega) (by omega)
    have hput : putSections headerBytes row e.total (s :: ss) artifact =
        putSections headerBytes (row + 1) e₁.total ss a₂ := by
      rw [putSections, ← hend]
      exact congrArg (putSections headerBytes (row + 1) · ss a₂)
        (mod_of_le_maxUint64 (hend ▸ ht₁))
    have hplace : placements e.total (s :: ss) = d :: placements e₁.total ss := added.placements ht ss
    rw [hput]
    constructor
    case length => rw [written.length, hlen₂]
    case frame =>
      intro i n hi hn
      rw [List.length_cons, ← Nat.add_assoc, Nat.add_right_comm] at hi
      rw [written.frame i n (by omega) (by omega), Region.read_write_disjoint (by omega),
        read_putDescriptor (by omega)]
    case table =>
      rw [hplace, List.length_cons, List.range_succ_eq_map, List.map_cons, List.map_map, ← written.table]
      congr 1
      · have hkeep : ∀ i n, descriptorOffset headerBytes row ≤ i →
            i + n ≤ descriptorOffset headerBytes row + artifactDescriptorBytes →
            Region.read (putSections headerBytes (row + 1) e₁.total ss a₂) i n = Region.read a₁ i n := by
          intro i n _ _
          rw [written.frame i n (by omega) (by omega), Region.read_write_disjoint (by omega)]
        exact (getDescriptor_congr hkeep).trans (getDescriptor_putDescriptor hdesc (by omega))
      · refine List.map_congr_left fun j _ => ?_
        rw [Function.comp_apply, Nat.succ_eq_add_one, Nat.add_right_comm, Nat.add_assoc]
    case data =>
      rw [hplace, List.map_cons, List.map_cons, written.data]
      congr 1
      change Region.read _ d.offset s.data.length = s.data
      rw [written.frame _ _ (by omega) (by omega), Region.read_write_self]
      simp only [a₁, length_putDescriptor]
      omega

section Header

variable {artifact : List Byte} {magic tag flags sectionCount total i n : Nat} {limits : Limits}

@[simp]
theorem length_putHeader :
    (putHeader artifact magic tag flags sectionCount total).length = artifact.length := by
  simp [putHeader]

@[simp]
theorem length_putLimits : (putLimits artifact limits).length = artifact.length := by
  simp [putLimits]

theorem read_putLimits (h : i + n ≤ 64) :
    Region.read (putLimits artifact limits) i n = Region.read artifact i n := by
  simp only [putLimits]
  simp (disch := omega) only [read_putWord]

structure HeaderWords (src : List Byte) (magic tag flags sectionCount total : Nat) : Prop where
  magic : word src 0 4 = magic
  abi : word src 4 2 = currentABIVersion
  schema : word src 6 2 = currentSchemaVersion
  tag : word src 8 1 = tag
  padding : Region.read src 9 3 = List.replicate 3 0#8
  flags : word src 12 4 = flags
  sectionCount : word src 16 4 = sectionCount
  descriptor : word src 20 4 = artifactDescriptorBytes
  total : word src 24 8 = total

theorem HeaderWords.congr {src src' : List Byte} (h : HeaderWords src magic tag flags sectionCount total)
    (heq : ∀ i n, i + n ≤ artifactHashOffset → Region.read src' i n = Region.read src i n) :
    HeaderWords src' magic tag flags sectionCount total := by
  simp only [artifactHashOffset] at heq
  have ⟨h₁, h₂, h₃, h₄, h₅, h₆, h₇, h₈, h₉⟩ := h
  simp only [word] at h₁ h₂ h₃ h₄ h₆ h₇ h₈ h₉
  constructor
  all_goals
    first
    | rw [word, heq _ _ (by decide)]; assumption
    | rw [heq _ _ (by decide)]; assumption

theorem headerWords_putHeader (hl : frameHeaderBytes ≤ artifact.length) (hm : magic < 2 ^ 32)
    (ht : tag < 2 ^ 8) (hf : flags < 2 ^ 32) (hs : sectionCount < 2 ^ 32) (htotal : total < 2 ^ 64)
    (hz : Region.read artifact 9 3 = List.replicate 3 0#8) :
    HeaderWords (putHeader artifact magic tag flags sectionCount total)
      magic tag flags sectionCount total := by
  simp only [frameHeaderBytes] at hl
  have ha : currentABIVersion < 2 ^ 16 := by decide
  have hc : currentSchemaVersion < 2 ^ 16 := by decide
  have hd : artifactDescriptorBytes < 2 ^ 32 := by decide
  constructor
  all_goals
    simp only [putHeader]
    simp (disch := first | omega | (simp only [length_putWord]; omega)) only
      [word_putWord, word_putWord_self, read_putWord, hz]

theorem getLimits_putLimits (hl : artifactHeaderBytes ≤ artifact.length) :
    getLimits (putLimits artifact limits) = limits := by
  simp only [artifactHeaderBytes] at hl
  have h₁ := limits.maxArtifactBytes.toNat_lt
  have h₂ := limits.maxInputBytes.toNat_lt
  have h₃ := limits.maxOutputBytes.toNat_lt
  have h₄ := limits.maxFuel.toNat_lt
  have h₅ := limits.maxRows.toNat_lt
  have h₆ := limits.maxProgramColumns.toNat_lt
  simp only [getLimits, putLimits]
  simp (disch := first | omega | (simp only [length_putWord]; omega)) only
    [word_putWord, word_putWord_self, UInt64.ofNat_toNat, UInt32.ofNat_toNat]

end Header

structure Format.Fits (f : Format) : Prop where
  magic : f.magic < 2 ^ 32
  maxSections : f.maxSections < 2 ^ 32

-- Bytes that were built: what the preflight reads from them.
structure Sealed (sha : Digest) (f : Format) (tag flags : Nat) (limits : Limits)
    (ss : List SectionSpec) (src : List Byte) : Prop where
  header : preflightHeader sha src f =
    some (⟨src.length, limits, flags, ss.length, currentABIVersion, currentSchemaVersion, tag⟩,
      descriptorOffset f.headerBytes ss.length)
  descriptors : preflightDescriptors src f.headerBytes ss.length
    (descriptorOffset f.headerBytes ss.length) =
      some (placements (descriptorOffset f.headerBytes ss.length) ss)
  data : (placements (descriptorOffset f.headerBytes ss.length) ss).map
    (fun d => Region.read src d.offset d.bytes) = ss.map (·.data)
  digest : Region.read src artifactHashOffset artifactHashBytes = sha.sum (hashParts src)

section Sealed

variable {sha : Digest} {f : Format} {tag flags : Nat} {limits : Limits} {ss : List SectionSpec}
  {e : Extent}

structure Unsealed (f : Format) (tag flags : Nat) (limits : Limits) (ss : List SectionSpec)
    (e : Extent) (artifact : List Byte) : Prop where
  length : artifact.length = e.total
  words : HeaderWords artifact f.magic tag flags ss.length e.total
  limits : f.headerBytes = artifactHeaderBytes → getLimits artifact = limits
  empty : Region.read artifact artifactHashOffset artifactHashBytes =
    List.replicate artifactHashBytes 0#8
  written : ∃ before, Written f.headerBytes 0
    ⟨0, descriptorOffset f.headerBytes ss.length⟩ e ss before artifact

theorem bounds_of_headerBytes {n : Nat} (hn : n < 2 ^ 32)
    (hh : f.headerBytes = frameHeaderBytes ∨ f.headerBytes = artifactHeaderBytes) :
    64 ≤ f.headerBytes ∧ f.headerBytes ≤ descriptorOffset f.headerBytes n ∧
      descriptorOffset f.headerBytes n ≤ maxUint64 := by
  simp only [descriptorOffset, artifactDescriptorBytes, maxUint64, frameHeaderBytes,
    artifactHeaderBytes] at *
  omega

theorem unsealed_unsigned (ff : f.Fits) (ht : tag < 2 ^ 8) (hf : flags < 2 ^ 32)
    (fits : ∀ s ∈ ss, s.Fits) (hlen : ss.length ≤ f.maxSections)
    (hh : f.headerBytes = frameHeaderBytes ∨ f.headerBytes = artifactHeaderBytes)
    (h : ss.foldlM Extent.add ⟨0, descriptorOffset f.headerBytes ss.length⟩ = some e) :
    Unsealed f tag flags limits ss e (unsigned f tag flags limits ss e.total) := by
  have hmax := ff.maxSections
  have ⟨h64, hstart, hsmall⟩ := @bounds_of_headerBytes f ss.length (by omega) hh
  have ⟨hle, htotal⟩ := Extent.le_of_adds h hsmall
  have hle : descriptorOffset f.headerBytes ss.length ≤ e.total := hle
  let a₀ := List.replicate e.total 0#8
  let a₁ := putHeader a₀ f.magic tag flags ss.length e.total
  let a₂ := if f.headerBytes = artifactHeaderBytes then putLimits a₁ limits else a₁
  have hlen₂ : a₂.length = e.total := by
    simp only [a₂, a₁, a₀]
    split <;> simp
  have hread₂ : ∀ i n, i + n ≤ 64 → Region.read a₂ i n = Region.read a₁ i n := fun i n hi => by
    simp only [a₂]
    split
    · exact read_putLimits hi
    · rfl
  have written : Written f.headerBytes 0 ⟨0, descriptorOffset f.headerBytes ss.length⟩ e ss a₂
      (unsigned f tag flags limits ss e.total) :=
    written_putSections h hsmall fits (by rw [Nat.zero_add]) (by rw [hlen₂])
  have hkeep : ∀ i n, i + n ≤ f.headerBytes →
      Region.read (unsigned f tag flags limits ss e.total) i n = Region.read a₂ i n := fun i n hi =>
    written.frame i n (.inl (by simpa [descriptorOffset] using hi)) (.inl (Nat.le_trans hi hstart))
  constructor
  case length => rw [written.length, hlen₂]
  case words =>
    have hwords : HeaderWords a₁ f.magic tag flags ss.length e.total := by
      simp only [maxUint64] at htotal
      refine headerWords_putHeader ?_ ff.magic ht hf (by omega) (by omega)
        (Region.read_replicate (by omega))
      simp only [a₀, List.length_replicate, frameHeaderBytes]
      omega
    refine hwords.congr fun i n hi => ?_
    simp only [artifactHashOffset] at hi
    rw [hkeep i n (by omega), hread₂ i n (by omega)]
  case limits =>
    intro ha
    have hl : artifactHeaderBytes ≤ a₁.length := by
      simp only [a₁, length_putHeader, a₀, List.length_replicate]
      omega
    have hget : getLimits a₂ = limits := by
      simp only [a₂, if_pos ha]
      exact getLimits_putLimits hl
    refine Eq.trans ?_ hget
    simp only [artifactHeaderBytes] at ha
    simp only [getLimits, word]
    simp (disch := omega) only [hkeep]
  case empty =>
    simp only [artifactHashOffset, artifactHashBytes]
    rw [hkeep _ _ (by omega), hread₂ _ _ (by omega)]
    simp only [a₁, putHeader]
    simp (disch := omega) only [read_putWord]
    exact Region.read_replicate (by omega)
  case written => exact ⟨a₂, written⟩

variable {artifact dst out : List Byte}

theorem read_signed {i n : Nat}
    (h : i + n ≤ artifactHashOffset ∨ artifactHashOffset + artifactHashBytes ≤ i) :
    Region.read (Region.write artifact artifactHashOffset (sha.sum artifact)) i n =
      Region.read artifact i n :=
  Region.read_write_disjoint (by rwa [sha.length_sum])

theorem Unsealed.hashParts_signed (u : Unsealed f tag flags limits ss e artifact) :
    hashParts (Region.write artifact artifactHashOffset (sha.sum artifact)) = artifact := by
  rw [hashParts, Region.take_write (Nat.le_refl _), Region.drop_write (by rw [sha.length_sum]; rfl),
    ← u.empty]
  exact Region.take_read_drop ..

theorem Unsealed.sealed (u : Unsealed f tag flags limits ss e artifact) (hmax : f.maxBytes ≠ 0)
    (hle : e.total ≤ f.maxBytes) (hlen : ss.length < 2 ^ 32)
    (hh : f.headerBytes = frameHeaderBytes ∨ f.headerBytes = artifactHeaderBytes)
    (hzero : f.headerBytes = frameHeaderBytes → limits = .zero)
    (he : ss.foldlM Extent.add ⟨0, descriptorOffset f.headerBytes ss.length⟩ = some e) :
    Sealed sha f tag flags limits ss
      (Region.write artifact artifactHashOffset (sha.sum artifact)) := by
  let src := Region.write artifact artifactHashOffset (sha.sum artifact)
  have hsrc : src.length = e.total := by rw [Region.length_write, u.length]
  have hparts : hashParts src = artifact := u.hashParts_signed
  have ⟨h64, hstart, hsmall⟩ := bounds_of_headerBytes hlen hh
  obtain ⟨htotal, _⟩ := Extent.le_of_adds he hsmall
  have htotal : descriptorOffset f.headerBytes ss.length ≤ e.total := htotal
  have words : HeaderWords src f.magic tag flags ss.length e.total :=
    u.words.congr fun i n hi => read_signed (.inl hi)
  have hkeep : ∀ i n, 64 ≤ i → Region.read src i n = Region.read artifact i n := fun i n hi =>
    read_signed (.inr hi)
  have hdigest : Region.read src artifactHashOffset artifactHashBytes = sha.sum (hashParts src) := by
    have hwrite := @Region.read_write_self _ artifact (sha.sum artifact) artifactHashOffset (by
      rw [sha.length_sum, u.length, artifactHashOffset]
      omega)
    rw [sha.length_sum] at hwrite
    rw [hparts]
    exact hwrite
  have hlimits : (if f.headerBytes = artifactHeaderBytes then getLimits src else .zero) = limits := by
    split
    case isTrue ha =>
      rw [← u.limits ha]
      simp only [getLimits, word]
      simp (disch := omega) only [hkeep]
    case isFalse ha => exact (hzero (hh.resolve_right ha)).symm
  obtain ⟨_, written⟩ := u.written
  change Sealed sha f tag flags limits ss src
  constructor
  case digest => exact hdigest
  case header =>
    rw [preflightHeader, if_neg, if_neg, if_neg]
    · simp only [words.abi, words.schema, words.tag, words.flags, words.sectionCount, words.total,
        hsrc, hlimits]
    · rw [words.sectionCount, hsrc]
      exact Nat.not_lt.mpr htotal
    · simp only [not_or, not_not, Bool.not_eq_true', Bool.not_eq_false]
      refine ⟨by rw [words.total, hsrc], words.descriptor, by rw [words.padding]; rfl, ?_⟩
      rw [validArtifactHash, hdigest, beq_self_eq_true]
    · simp only [not_or, not_and, not_not, Nat.not_lt]
      exact ⟨fun hne => hh.resolve_left hne, by rw [hsrc]; omega, hmax, by rw [hsrc]; exact hle,
        words.magic⟩
  case descriptors =>
    have htable : (List.range ss.length).map (fun row =>
        getDescriptor src (descriptorOffset f.headerBytes row)) =
          placements (descriptorOffset f.headerBytes ss.length) ss := by
      refine Eq.trans (List.map_congr_left fun row _ => ?_) written.table
      rw [Nat.zero_add]
      exact getDescriptor_congr fun i n hi _ => hkeep i n
        (Nat.le_trans (Nat.le_trans h64 (Nat.le_add_right ..)) hi)
    have hplace := place_placements he hsmall (Nat.le_refl e.total)
    rw [preflightDescriptors]
    simp only [htable, hsrc]
    rw [hplace]
    simp only [Option.bind_eq_bind, Option.bind_some, ne_eq, not_true_eq_false, if_false]
  case data =>
    refine Eq.trans (List.map_congr_left fun d hd => hkeep _ _ ?_) written.data
    exact Nat.le_trans (Nat.le_trans h64 hstart) (le_offset_of_mem_placements he hsmall hd)

theorem sealed_buildSections (ff : f.Fits) (ht : tag < 2 ^ 8) (hf : flags < 2 ^ 32)
    (fits : ∀ s ∈ ss, s.Fits) (h : buildSections sha dst f tag flags limits ss = some out) :
    ∃ src, out = dst ++ src ∧ Sealed sha f tag flags limits ss src := by
  unfold buildSections at h
  have ⟨hc, h⟩ := Checked.ite_eq_of_ne h nofun
  simp only [not_or, not_and, not_not, Nat.not_lt] at hc
  have ⟨hmax, hlen, hh, _, hzero⟩ := hc
  rw [Option.bind_eq_bind, Option.bind_eq_some_iff] at h
  have ⟨e, he, h⟩ := h
  have ⟨ht', h⟩ := Checked.ite_eq_of_ne h nofun
  rw [not_or, Nat.not_lt] at ht'
  cases h
  have hh : f.headerBytes = frameHeaderBytes ∨ f.headerBytes = artifactHeaderBytes := by
    by_cases hframe : f.headerBytes = frameHeaderBytes
    · exact .inl hframe
    · exact .inr (hh hframe)
  have u : Unsealed f tag flags limits ss e _ := unsealed_unsigned ff ht hf fits hlen hh he
  have hmax' := ff.maxSections
  exact ⟨_, rfl, u.sealed hmax ht'.1 (by omega) hh hzero he⟩

-- Sections that can be laid out within the bounds of a format, behind bytes that are there already.
structure Format.Admits (f : Format) (limits : Limits) (used : Nat) (ss : List SectionSpec) : Prop where
  header : f.headerBytes = frameHeaderBytes ∧ limits = .zero ∨
    f.headerBytes = artifactHeaderBytes ∧ limits.valid
  count : ss.length ≤ f.maxSections
  ids : (0 :: ss.map (·.id)).Pairwise (· < ·)
  width : ∀ s ∈ ss, validWidth s.width
  data : ∀ s ∈ ss, s.data.length = s.count * s.width
  total : laidOut (descriptorOffset f.headerBytes ss.length) ss ≤ f.maxBytes
  room : used + laidOut (descriptorOffset f.headerBytes ss.length) ss ≤ maxInt

theorem buildSections_ok (h : f.Admits limits dst.length ss) :
    ∃ out, buildSections sha dst f tag flags limits ss = some out := by
  have htotal := h.total
  have hroom := h.room
  have hmax : maxInt ≤ maxUint64 := by decide
  have hstart : 64 ≤ descriptorOffset f.headerBytes ss.length := by
    rcases h.header with ⟨hh, _⟩ | ⟨hh, _⟩
    all_goals
      simp only [hh, descriptorOffset, frameHeaderBytes, artifactHeaderBytes]
      omega
  have hle := le_laidOut h.width (descriptorOffset f.headerBytes ss.length)
  have ⟨e, he, hlaid⟩ := Extent.exists_adds (e := ⟨0, descriptorOffset f.headerBytes ss.length⟩)
    h.ids h.width h.data (by simp only; omega)
  simp only at hlaid
  rw [buildSections, if_neg, he, Option.bind_eq_bind, Option.bind_some, if_neg (by omega)]
  · exact ⟨_, rfl⟩
  · have hcount := h.count
    rcases h.header with ⟨hh, hz⟩ | ⟨hh, hz⟩
    · simp [hh, hz, frameHeaderBytes, artifactHeaderBytes]
      omega
    · simp [hh, hz, frameHeaderBytes, artifactHeaderBytes]
      omega

theorem preflightSections_of_sealed {src : List Byte} (hlen : ss.length ≤ f.maxSections)
    (built : Sealed sha f tag flags limits ss src) : preflightSections sha src f =
      some (⟨src.length, limits, flags, ss.length, currentABIVersion, currentSchemaVersion, tag⟩,
        placements (descriptorOffset f.headerBytes ss.length) ss) := by
  simp only [preflightSections, built.header, Option.bind_eq_bind, Option.bind_some, ne_eq,
    not_true_eq_false, false_or, Nat.not_lt.mpr hlen, if_false, built.descriptors]
  rfl

theorem length_le_of_buildSections (h : buildSections sha dst f tag flags limits ss = some out) :
    ss.length ≤ f.maxSections := by
  unfold buildSections at h
  have ⟨hc, h⟩ := Checked.ite_eq_of_ne h nofun
  simp only [not_or, Nat.not_lt] at hc
  exact hc.2.1

end Sealed
end NornRune
