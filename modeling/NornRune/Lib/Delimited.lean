import NornRune.Lib.Wire

-- Encodings whose end can be told, so that what follows does not have to be separated from them.
namespace Wire

variable {α β : Type} {P : α → Prop} {f : α → List β}

-- On the values with a property, the beginning of a string determines the value that it encodes.
def Delimited (P : α → Prop) (f : α → List β) : Prop :=
  ∀ a b, P a → P b → ∀ xs ys, f a ++ xs = f b ++ ys → a = b ∧ xs = ys

namespace Delimited

theorem injective (h : Delimited P f) {a b : α} (ha : P a) (hb : P b) (hab : f a = f b) : a = b :=
  (h a b ha hb [] [] (by rw [hab])).1

theorem fixed {n : Nat} (hlen : ∀ a, P a → (f a).length = n)
    (hinj : ∀ a b, P a → P b → f a = f b → a = b) : Delimited P f := by
  intro a b ha hb xs ys h
  have ⟨hab, hxy⟩ := List.append_inj h (by rw [hlen a ha, hlen b hb])
  exact ⟨hinj a b ha hb hab, hxy⟩

theorem many (hf : Delimited P f) (n : Nat) :
    Delimited (fun as : List α => as.length = n ∧ ∀ a ∈ as, P a) fun as => as.flatMap f := by
  intro as bs has hbs xs ys h
  induction n generalizing as bs
  case zero =>
    cases List.eq_nil_of_length_eq_zero has.1
    cases List.eq_nil_of_length_eq_zero hbs.1
    exact ⟨rfl, h⟩
  case succ n ih =>
    obtain ⟨a, as, rfl⟩ := List.exists_cons_of_length_eq_add_one has.1
    obtain ⟨b, bs, rfl⟩ := List.exists_cons_of_length_eq_add_one hbs.1
    simp only [List.flatMap_cons, List.append_assoc] at h
    simp only [List.length_cons, Nat.add_right_cancel_iff, List.forall_mem_cons] at has hbs
    have ⟨hab, h⟩ := hf a b has.2.1 hbs.2.1 _ _ h
    have ⟨habs, h⟩ := ih as bs ⟨has.1, has.2.2⟩ ⟨hbs.1, hbs.2.2⟩ h
    exact ⟨by rw [hab, habs], h⟩

end Delimited

theorem delimited_put (width : Nat) : Delimited (fun value => value < 256 ^ width) (put width) :=
  .fixed (fun value _ => length_put width value) fun a b ha hb h => by
    rw [← get_put ha, ← get_put hb, h]

-- A list after its length, in a word of some width.
def counted (width : Nat) (f : α → List (BitVec 8)) (as : List α) : List (BitVec 8) :=
  put width as.length ++ as.flatMap f

theorem Delimited.counted {f : α → List (BitVec 8)} (hf : Delimited P f) (width : Nat) :
    Delimited (fun as : List α => as.length < 256 ^ width ∧ ∀ a ∈ as, P a) (counted width f) := by
  intro as bs has hbs xs ys h
  rw [Wire.counted, Wire.counted, List.append_assoc, List.append_assoc] at h
  have ⟨hlen, h⟩ := delimited_put width _ _ has.1 hbs.1 _ _ h
  exact hf.many bs.length as bs ⟨hlen, has.2⟩ ⟨rfl, hbs.2⟩ xs ys h

end Wire
