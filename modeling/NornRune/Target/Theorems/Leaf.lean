import NornRune.Target.Leaf
import NornRune.Target.Theorems.Layout

open Wire

namespace NornRune

variable {σ : Type} {leaf : ProgramLeaf σ} {leaves : List (ProgramLeaf σ)} {value : σ}

namespace ProgramLeaf

def spec (leaf : ProgramLeaf σ) (id : Nat) (value : σ) : SectionSpec where
  data := putAll leaf.width (leaf.bits value)
  count := (leaf.bits value).length
  id := id
  width := leaf.width

theorem encodeReuse_eq_some {id : Nat} {data data' : Slice Byte} {s : SectionSpec}
    (h : leaf.encodeReuse id value data = some (s, data')) :
    s = leaf.spec id value ∧ s.count ≤ maxUint32 := by
  simp only [encodeReuse] at h
  have ⟨hc, h⟩ := Checked.ite_eq_of_ne h nofun
  rw [Option.bind_eq_bind, Option.bind_eq_some_iff] at h
  have ⟨byteCount, hb, h⟩ := h
  have ⟨_, h⟩ := Checked.ite_eq_of_ne h nofun
  have hlen : byteCount = (leaf.bits value).length * leaf.width := (checkedProduct_eq_some_iff.mp hb).2.symm
  cases h
  refine ⟨?_, Nat.le_of_not_lt hc⟩
  rw [spec, putFrom_eq_putAll]
  simpa using hlen

theorem decode_spec {src : List Byte} {id offset : Nat} (typed : leaf.typed value)
    (h : Region.read src ((leaf.spec id value).descriptor offset).offset
      ((leaf.spec id value).descriptor offset).bytes = (leaf.spec id value).data) :
    leaf.decode src ((leaf.spec id value).descriptor offset) = leaf.copy value := by
  rw [decode, h]
  change (if !leaf.shape.accepts (leaf.bits value).length then none
    else leaf.assign (getAll leaf.width (leaf.bits value).length (putAll leaf.width (leaf.bits value)))) = _
  rw [leaf.accepts value typed, getAll_putAll (leaf.bits_lt value typed), leaf.assign_bits value typed]
  rfl

end ProgramLeaf

def specs (value : σ) : List (ProgramLeaf σ) → Nat → List SectionSpec
  | [], _ => []
  | leaf :: leaves, row => leaf.spec (row + 1) value :: specs value leaves (row + 1)

@[simp]
theorem length_specs (value : σ) (leaves : List (ProgramLeaf σ)) (row : Nat) :
    (specs value leaves row).length = leaves.length := by
  induction leaves generalizing row
  case nil => rfl
  case cons leaf leaves ih => rw [specs, List.length_cons, ih, List.length_cons]

theorem exists_mem_specs {leaf : ProgramLeaf σ} (h : leaf ∈ leaves) (row : Nat) :
    ∃ id, leaf.spec id value ∈ specs value leaves row := by
  induction leaves generalizing row
  case nil => cases h
  case cons leaf' leaves ih =>
    rcases List.mem_cons.mp h with rfl | h
    · exact ⟨row + 1, List.mem_cons_self⟩
    · exact (ih h (row + 1)).imp fun _ => List.mem_cons_of_mem _

theorem fillSections_eq_some {row : Nat} {buffers buffers' : Slice (Slice Byte)}
    {ss : List SectionSpec} (h : fillSections value leaves row buffers = (buffers', some ss)) :
    ss = specs value leaves row ∧ ∀ s ∈ ss, s.id ≤ row + leaves.length ∧ s.count ≤ maxUint32 := by
  induction leaves generalizing row buffers buffers' ss
  case nil =>
    cases h
    exact ⟨rfl, fun _ hm => by cases hm⟩
  case cons leaf leaves ih =>
    rw [fillSections] at h
    split at h
    case h_1 => cases h
    case h_2 s data he =>
      have ⟨hs, hc⟩ := ProgramLeaf.encodeReuse_eq_some he
      cases hf : fillSections value leaves (row + 1) (buffers.set row data)
      case mk b ss' =>
        simp only [hf, Prod.mk.injEq, Option.map_eq_some_iff] at h
        have ⟨_, ss'', hss', hss⟩ := h
        subst hss hss'
        have ⟨heq, hbound⟩ := ih hf
        refine ⟨by rw [specs, ← hs, ← heq], fun t ht => ?_⟩
        rcases List.mem_cons.mp ht with rfl | ht
        case inl =>
          refine ⟨?_, hc⟩
          rw [hs, List.length_cons]
          simp only [ProgramLeaf.spec]
          omega
        case inr =>
          have := hbound t ht
          rw [List.length_cons]
          omega

def copyAll (value : σ) : List (ProgramLeaf σ) → Option (σ → σ)
  | [] => some id
  | leaf :: leaves => do
    let f ← leaf.copy value
    let g ← copyAll value leaves
    return g ∘ f

variable {g : σ → σ}

theorem copyAll_cons {f : σ → σ} (hf : leaf.copy value = some f)
    (hg : copyAll value leaves = some g) :
    copyAll value (leaf :: leaves) = some (g ∘ f) := by
  rw [copyAll, hf, hg]
  rfl

theorem copyAll_cons_eq_some (h : copyAll value (leaf :: leaves) = some g) :
    ∃ f g', leaf.copy value = some f ∧ copyAll value leaves = some g' ∧ g = g' ∘ f := by
  rw [copyAll, Option.bind_eq_bind, Option.bind_eq_some_iff] at h
  have ⟨f, hf, h⟩ := h
  have ⟨g', hg', h⟩ := Option.bind_eq_some_iff.mp h
  exact ⟨f, g', hf, hg', (Option.some.inj h).symm⟩

theorem copyAll_append {leaves' : List (ProgramLeaf σ)} {f : σ → σ}
    (hf : copyAll value leaves = some f) (hg : copyAll value leaves' = some g) :
    copyAll value (leaves ++ leaves') = some (g ∘ f) := by
  induction leaves generalizing f
  case nil =>
    cases hf
    exact hg
  case cons leaf leaves ih =>
    have ⟨f₁, f₂, hf₁, hf₂, heq⟩ := copyAll_cons_eq_some hf
    rw [heq, ← Function.comp_assoc]
    exact copyAll_cons hf₁ (ih hf₂)

theorem copyAll_map_lift {τ : Type} {get : τ → σ} {update : (σ → σ) → τ → τ} {value : τ}
    (hcomp : ∀ f g, update (g ∘ f) = update g ∘ update f) (hne : leaves ≠ [])
    (h : copyAll (get value) leaves = some g) :
    copyAll value (leaves.map (·.lift get update)) = some (update g) := by
  induction leaves generalizing g
  case nil => exact absurd rfl hne
  case cons leaf leaves ih =>
    have ⟨f, g', hf, hg', heq⟩ := copyAll_cons_eq_some h
    have hlift : (leaf.lift get update).copy value = some (update f) := by
      simp only [ProgramLeaf.lift, hf, Option.map_some]
    rw [List.map_cons, heq]
    cases leaves
    case nil =>
      cases hg'
      exact copyAll_cons (f := update f) (g := id) hlift rfl
    case cons leaf' rest =>
      rw [hcomp]
      exact copyAll_cons hlift (ih (List.cons_ne_nil _ _) hg')

theorem decodeSections_specs {src : List Byte} {done : List SectionDescriptor} {offset : Nat}
    {g : σ → σ} (typed : ∀ leaf ∈ leaves, leaf.typed value) (hcopy : copyAll value leaves = some g)
    (hdata : (placements offset (specs value leaves done.length)).map
      (fun d => Region.read src d.offset d.bytes) = (specs value leaves done.length).map (·.data))
    (dst : σ) :
    decodeSections src (done ++ placements offset (specs value leaves done.length)) leaves done.length
      dst = (g dst, some (done.length + leaves.length)) := by
  induction leaves generalizing done offset g dst
  case nil =>
    cases hcopy
    rfl
  case cons leaf leaves ih =>
    have ⟨f, g', hf, hg', hg⟩ := copyAll_cons_eq_some hcopy
    subst hg
    let d := (leaf.spec (done.length + 1) value).descriptor offset
    simp only [specs, placements, List.map_cons, List.cons.injEq] at hdata
    have hdecode : leaf.decode src d = some f :=
      (ProgramLeaf.decode_spec (typed leaf List.mem_cons_self) hdata.1).trans hf
    have hlen : (done ++ [d]).length = done.length + 1 := List.length_append
    have hrest := @ih (done ++ [d]) (d.offset + d.bytes) g'
      (fun l hm => typed l (List.mem_cons_of_mem _ hm)) hg' (by rw [hlen]; exact hdata.2) (f dst)
    rw [hlen, List.append_assoc, List.singleton_append] at hrest
    have hget : (done ++ placements offset (specs value (leaf :: leaves) done.length))[done.length]? =
        some d := by
      rw [specs, placements, List.getElem?_append_right (Nat.le_refl _), Nat.sub_self,
        List.getElem?_cons_zero]
    rw [decodeSections, hget]
    simp only
    rw [if_neg (by simp [d, SectionSpec.descriptor, ProgramLeaf.spec]), hdecode, List.length_cons,
      Nat.add_comm leaves.length, ← Nat.add_assoc]
    exact hrest

inductive Update : List (ProgramLeaf σ) → (σ → σ) → Prop
  | nil : Update [] id
  | cons {leaf : ProgramLeaf σ} {leaves : List (ProgramLeaf σ)} {bits : List Nat} {f g : σ → σ}
    (head : leaf.assign bits = some f) (tail : Update leaves g) : Update (leaf :: leaves) (g ∘ f)

namespace Update

variable {α : Type} {c : Scalar α} {g : σ → σ} {get : σ → List α}

theorem slice {set : List α → Option (σ → σ)} (h : Update (.slice c get set :: leaves) g) :
    ∃ xs f g', Update leaves g' ∧ set xs = some f ∧ g = g' ∘ f := by
  cases h
  case cons bits f g' head tail =>
    have ⟨xs, _, hf⟩ := Option.bind_eq_some_iff.mp head
    exact ⟨xs, f, g', tail, hf, rfl⟩

theorem column {set : List α → σ → σ} (h : Update (.column c get set :: leaves) g) :
    ∃ xs g', Update leaves g' ∧ g = g' ∘ set xs := by
  have ⟨xs, f, g', tail, hf, hg⟩ := slice h
  cases hf
  exact ⟨xs, g', tail, hg⟩

theorem scalar {get : σ → α} {set : α → Option (σ → σ)} (h : Update (.scalar c get set :: leaves) g) :
    ∃ a f g', Update leaves g' ∧ set a = some f ∧ g = g' ∘ f := by
  cases h
  case cons bits f g' head tail =>
    have ⟨xs, _, hf⟩ := Option.bind_eq_some_iff.mp head
    have ⟨a, _, hf⟩ := Option.bind_eq_some_iff.mp hf
    exact ⟨a, f, g', tail, hf, rfl⟩

theorem eq_id (h : Update [] g) : g = id := by
  cases h
  rfl

end Update

theorem update_of_decodeSections {src : List Byte} {descriptors : List SectionDescriptor}
    {row n : Nat} {dst dst' : σ}
    (h : decodeSections src descriptors leaves row dst = (dst', some n)) :
    ∃ g, Update leaves g ∧ dst' = g dst ∧
      ∀ u, decodeSections src descriptors leaves row u = (g u, some n) := by
  induction leaves generalizing row dst
  case nil =>
    cases h
    exact ⟨id, .nil, rfl, fun _ => rfl⟩
  case cons leaf leaves ih =>
    simp only [decodeSections] at h ⊢
    cases hd : descriptors[row]?
    case none =>
      rw [hd] at h
      cases h
    case some d =>
      simp only [hd] at h ⊢
      have ⟨hid, h⟩ := Checked.ite_eq_of_ne h nofun
      simp only [if_neg hid]
      cases hf : leaf.decode src d
      case none =>
        rw [hf] at h
        cases h
      case some f =>
        simp only [hf] at h ⊢
        have ⟨g, update, hg, hall⟩ := ih h
        refine ⟨g ∘ f, ?_, hg, fun u => hall (f u)⟩
        unfold ProgramLeaf.decode at hf
        have ⟨_, hf⟩ := Checked.ite_eq_of_ne hf nofun
        exact .cons hf update

def ProgramLeaf.Keeps (leaf : ProgramLeaf σ) (P : σ → Prop) : Prop :=
  ∀ bits f, (∀ b ∈ bits, b < 256 ^ leaf.width) → leaf.assign bits = some f → ∀ v, P v → P (f v)

namespace ProgramLeaf.Keeps

variable {α : Type} {c : Scalar α} {P : σ → Prop} {get : σ → List α}

theorem ofScalars {shape : Shape} {set : List α → Option (σ → σ)}
    (accepts : ∀ v, shape.accepts (get v).length) (h : ∀ xs f, set xs = some f → ∀ v, P v → P (f v)) :
    (ProgramLeaf.ofScalars c shape get set accepts).Keeps P := by
  intro bits f _ hf
  have ⟨xs, _, hset⟩ := Option.bind_eq_some_iff.mp hf
  exact h xs f hset

theorem column {set : List α → σ → σ} (h : ∀ xs v, P v → P (set xs v)) :
    (ProgramLeaf.column c get set).Keeps P :=
  ofScalars (fun _ => rfl) fun xs _ hf => Option.some.inj hf ▸ h xs

theorem scalar {get : σ → α} {set : α → Option (σ → σ)}
    (h : ∀ a f, set a = some f → ∀ v, P v → P (f v)) : (ProgramLeaf.scalar c get set).Keeps P :=
  ofScalars (fun _ => rfl) fun _ f hf => by
    have ⟨a, _, ha⟩ := Option.bind_eq_some_iff.mp hf
    exact h a f ha

theorem unsigned {width : Nat} {hw : validWidth width} {get : σ → List Nat} {set : List Nat → σ → σ}
    (h : ∀ xs, (∀ x ∈ xs, x < 256 ^ width) → ∀ v, P v → P (set xs v)) :
    (ProgramLeaf.column (.unsigned width hw) get set).Keeps P := by
  intro bits f hbits hf
  have hsome : bits.mapM (Scalar.unsigned width hw).ofBits = some bits := by
    clear hf hbits
    induction bits
    case nil => rfl
    case cons b bs ih =>
      rw [List.mapM_cons, ih]
      rfl
  have hf : some (set bits) = some f := by
    rw [← hf]
    exact (congrArg (Option.bind · fun xs => some (set xs)) hsome).symm
  exact Option.some.inj hf ▸ h bits hbits

theorem lift {τ : Type} {get : τ → σ} {update : (σ → σ) → τ → τ} {Q : τ → Prop}
    (h : ∀ f, (∀ v, P v → P (f v)) → ∀ v, Q v → Q (update f v)) (hleaf : leaf.Keeps P) :
    (leaf.lift get update).Keeps Q := by
  intro bits f hbits hf
  have ⟨g, hg, heq⟩ := Option.map_eq_some_iff.mp hf
  exact heq ▸ h g (hleaf bits g hbits hg)

end ProgramLeaf.Keeps

theorem lt_of_mem_getAll {width count b : Nat} {data : List Byte} (h : b ∈ Wire.getAll width count data) :
    b < 256 ^ width := by
  have ⟨i, _, hi⟩ := List.mem_map.mp h
  rw [← hi]
  exact Nat.lt_of_lt_of_le (Wire.get_lt _)
    (Nat.pow_le_pow_right (by decide) (List.length_take_le _ _))

theorem keeps_decodeSections {P : σ → Prop} {dst : σ} (src : List Byte)
    (descriptors : List SectionDescriptor) (row : Nat) (keeps : ∀ leaf ∈ leaves, leaf.Keeps P)
    (h : P dst) :
    P (decodeSections src descriptors leaves row dst).1 := by
  induction leaves generalizing row dst
  case nil => exact h
  case cons leaf leaves ih =>
    unfold decodeSections
    split
    case h_1 => exact h
    case h_2 d hd =>
      split
      case isTrue => exact h
      case isFalse =>
        split
        case h_1 => exact h
        case h_2 f hf =>
          refine ih _ (fun l hl => keeps l (List.mem_cons_of_mem _ hl)) ?_
          unfold ProgramLeaf.decode at hf
          have ⟨_, hf⟩ := Checked.ite_eq_of_ne hf nofun
          exact keeps leaf List.mem_cons_self _ f (fun b hb => lt_of_mem_getAll hb) hf dst h

end NornRune
