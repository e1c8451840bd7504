import NornRune.Lib.Lending
import NornRune.Lib.Threads

open Ledger

namespace Pool

variable {S L E : Type}

-- How a program uses a pool: at each of its points, the slot that a thread has in its hands, the grant
-- that it was shown, whether it has found the generation of this grant, the generation with which it is
-- about to lend its slot, and whether it has freed its slot.
structure View (S L : Type) where
  pool : S → Pool
  hand : Nat → L → Hand
  shown : L → Option (Nat × Grant) := fun _ => none
  looks : L → Bool := fun _ => false
  lends : L → Option Nat := fun _ => none
  freed : L → Bool := fun _ => false

namespace View

variable (v : View S L) (stamps : Prop)

structure Holds (s : S) : Prop where
  owned : (v.pool s).Owned
  stamped : stamps → (v.pool s).ledger.Stamped

structure Point (t : Nat) (s : S) (l : L) : Prop where
  shown : ∀ n g, v.shown l = some (n, g) → (v.pool s).ledger.grants[n]? = some g
  looks : stamps → v.looks l → ∀ n g, v.shown l = some (n, g) →
    (v.pool s).ledger.Watches t g.slot g.generation
  lends : ∀ generation, v.lends l = some generation → ∃ i, v.hand t l = some (i, .taken t) ∧
    ((v.pool s).ledger.slots i).generation = generation ∧ (stamps → (v.pool s).ledger.Fresh i)
  freed : v.freed l → ∃ i, v.hand t l = some (i, .back t) ∧
    ((v.pool s).ledger.slots i).state = .free

structure Knows (t : Nat) (s : S) (l : L) : Prop extends v.Point stamps t s l where
  hand : (v.pool s).Holds t (v.hand t l)

structure Turn (t : Nat) (s : S) (l : L) (s' : S) (l' : L) (delta : Int) : Prop where
  moves : (v.pool s).Moves stamps t (v.hand t l) (v.pool s') (v.hand t l') delta
  point : v.Point stamps t s' l'

variable {v stamps} {s s' : S} {l l' k : L} {t u i n : Nat} {delta : Int}

theorem Point.plain (hs : v.shown l = none) (hl : v.lends l = none) (hf : v.freed l = false) :
    v.Point stamps t s l where
  shown := by rw [hs]; exact nofun
  looks := by rw [hs]; exact nofun
  lends := by rw [hl]; exact nofun
  freed := by rw [hf]; exact nofun

theorem Point.showing {g : Grant} (hs : v.shown l = some (n, g))
    (hg : (v.pool s).ledger.grants[n]? = some g) (hlooks : v.looks l = false) (hl : v.lends l = none)
    (hf : v.freed l = false) : v.Point stamps t s l where
  shown := fun m g' he => by
    cases hs.symm.trans he
    exact hg
  looks := by rw [hlooks]; exact nofun
  lends := by rw [hl]; exact nofun
  freed := by rw [hf]; exact nofun

theorem Turn.stay (hp : v.pool s' = v.pool s) (hand : v.hand t l' = v.hand t l)
    (point : v.Point stamps t s' l') : v.Turn stamps t s l s' l' 0 :=
  ⟨by rw [hp, hand]; exact .stay, point⟩

theorem Turn.sound (turn : v.Turn stamps t s l s' l' delta) (h : v.Holds stamps s)
    (hand : (v.pool s).Holds t (v.hand t l)) : v.Holds stamps s' ∧ v.Knows stamps t s' l' :=
  have good := turn.moves.good h.owned hand
  ⟨⟨good.owned, fun hs => (turn.moves.stamped hs (h.stamped hs)).1⟩, turn.point, good.holds⟩

-- What a thread knows about the slot in its hands and about the grant that it was shown stays true.
theorem Knows.stable (know : v.Knows stamps u s k) (e : Effect t (v.pool s).ledger (v.pool s').ledger)
    (w : stamps → Unwatched t (v.pool s).ledger (v.pool s').ledger) (hu : u ≠ t) :
    v.Knows stamps u s' k := by
  refine ⟨⟨fun n g hs => e.grants n g (know.shown n g hs), fun hst hl n g hs => ?_, fun gen hl => ?_,
    fun hf => ?_⟩, know.hand.stable e hu⟩
  case refine_1 =>
    have ⟨hm, hgen⟩ := know.looks hst hl n g hs
    have ⟨hm', hgen'⟩ := w hst g.slot u hu hm
    exact ⟨hm', hgen'.trans hgen⟩
  case refine_2 =>
    have ⟨i, hi, hgen, hfresh⟩ := know.lends gen hl
    have hkept := (know.hand.kept e hu hi rfl).2
    refine ⟨i, hi, hkept.trans hgen, fun hst g hg hslot => ?_⟩
    rw [hkept]
    -- A new grant is for a slot in the hands of the other thread.
    have ⟨m, hm⟩ := List.mem_iff_getElem?.mp hg
    rcases e.made m g hm with hold | hnew
    · exact hfresh hst g (List.mem_of_getElem? hold) hslot
    · rw [hslot, know.hand.thread hi rfl] at hnew
      exact absurd (Option.some.inj hnew) hu
  case refine_3 =>
    have ⟨i, hi, hfree⟩ := know.freed hf
    exact ⟨i, hi, (know.hand.kept e hu hi rfl).1.trans hfree⟩

-- A thread that has found the generation of its grant can only end this grant.
theorem Knows.own (know : v.Knows stamps t s l) (h : v.Holds stamps s) (hst : stamps) {g : Grant}
    (hs : v.shown l = some (n, g)) (hl : v.looks l) (m : Nat)
    (hm : ((v.pool s).ledger.slots g.slot).place = .lent m) : m = n :=
  h.owned.sound.own_of_watches (h.stamped hst) (know.shown n g hs) (know.looks hst hl n g hs) hm

-- A program that only does with the pool what threads can do with it, as long as something else holds.
def outline (v : View S L) (stamps : Prop) {program : Threads.Program S L E} (Extra : S → Prop)
    (turns : ∀ {t s l e s' l'}, v.Holds stamps s → Extra s → v.Knows stamps t s l →
      program t s l e = some (s', l') → ∃ delta, v.Turn stamps t s l s' l' delta ∧ Extra s') :
    Threads.Outline program where
  Holds := fun s => v.Holds stamps s ∧ Extra s
  Knows := v.Knows stamps
  step := fun h k hp =>
    have ⟨_, turn, extra⟩ := turns h.1 h.2 k hp
    have sound := turn.sound h.1 k.hand
    ⟨⟨sound.1, extra⟩, sound.2⟩
  stable := fun h k hp hu know =>
    have ⟨_, turn, _⟩ := turns h.1 h.2 k hp
    know.stable (turn.moves.good h.1.owned k.hand).effect
      (fun hst => (turn.moves.stamped hst (h.1.stamped hst)).2) hu

end View
end Pool
