import NornRune.Compile.Theorems.Symbols

open Checked

-- The literals of a document and the values of the program that stand for them.
namespace NornRune

namespace ValueTable

variable {t t' : ValueTable} {id : Nat} {payload : Payload} {s : ValueSlot} {hash : BitVec 64}
  {names names' : List (List Byte)}

structure Stored (t : ValueTable) (id : Nat) (payload : Payload) : Prop where
  ne_zero : id ≠ 0
  kind : t.kinds[id - 1]? = some payload.kind
  ref : ∃ ref, t.refs[id - 1]? = some ref ∧ t.valueEqual payload.kind ref payload

structure Extends (t t' : ValueTable) : Prop where
  kinds : t.kinds <+: t'.kinds
  refs : t.refs <+: t'.refs
  integers : t.integers <+: t'.integers
  booleans : t.booleans <+: t'.booleans
  timestamps : t.timestamps <+: t'.timestamps

theorem Extends.refl (t : ValueTable) : Extends t t :=
  ⟨List.prefix_refl _, List.prefix_refl _, List.prefix_refl _, List.prefix_refl _, List.prefix_refl _⟩

theorem Extends.valueEqual (h : Extends t t') {kind : ValueKind} {ref : Nat}
    (he : t.valueEqual kind ref payload) : t'.valueEqual kind ref payload := by
  simp only [ValueTable.valueEqual, Bool.and_eq_true] at he ⊢
  refine ⟨he.1, ?_⟩
  have he := he.2
  cases payload
  case symbol => exact he
  all_goals
    simp only [Bool.and_eq_true, bne_iff_ne, beq_iff_eq] at he ⊢
    refine ⟨he.1, Ragged.getElem?_of_prefix ?_ he.2⟩
  case integer => exact h.integers
  case boolean => exact h.booleans
  case timestamp => exact h.timestamps

theorem Extends.stored (h : Extends t t') (hs : t.Stored id payload) : t'.Stored id payload := by
  have ⟨ref, hr, he⟩ := hs.ref
  exact ⟨hs.ne_zero, Ragged.getElem?_of_prefix h.kinds hs.kind, ref, Ragged.getElem?_of_prefix h.refs hr,
    h.valueEqual he⟩

theorem appendValuePayload_eq_ok {ref : Nat} (h : t.appendValuePayload payload = .ok (t', ref)) :
    Extends t t' ∧ t'.kinds = t.kinds ∧ t'.refs = t.refs ∧ t'.slots = t.slots ∧
      t'.valueEqual payload.kind ref payload := by
  cases payload
  case symbol s =>
    have ⟨_, h⟩ := of_guard h
    cases h
    exact ⟨.refl t, rfl, rfl, rfl, by simp [valueEqual]⟩
  all_goals
    have ⟨_, h⟩ := of_guard h
    cases h
    refine ⟨⟨?_, ?_, ?_, ?_, ?_⟩, rfl, rfl, rfl, by simp [valueEqual]⟩
    all_goals first | exact List.prefix_refl _ | exact List.prefix_append _ _

def text (names : List (List Byte)) : Payload → List Byte
  | .symbol s => names.getD (s - 1) []
  | _ => []

def Known (names : List (List Byte)) : Payload → Prop
  | .symbol s => s ≠ 0 ∧ s ≤ names.length
  | _ => True

theorem text_of_known (hp : Known names payload) (hn : names <+: names') :
    text names' payload = text names payload := by
  cases payload
  case symbol s =>
    obtain ⟨rest, rfl⟩ := hn
    exact List.getD_append _ _ _ _ (by have := hp.1; have := hp.2; omega)
  all_goals rfl

theorem Known.mono (hp : Known names payload) (hn : names <+: names') :
    Known names' payload := by
  cases payload
  case symbol s => exact ⟨hp.1, hp.2.trans hn.length_le⟩
  all_goals trivial

def slotPayload (t : ValueTable) (s : ValueSlot) : Payload :=
  match s.kind with
  | .integer => .integer (t.integers.getD (s.ref - 1) 0)
  | .boolean => .boolean (t.booleans.getD (s.ref - 1) 0 != 0)
  | .timestamp => .timestamp (t.timestamps.getD (s.ref - 1) 0)
  | _ => .symbol s.ref

theorem slotPayload_of_valueEqual (h : t.valueEqual s.kind s.ref payload) :
    t.slotPayload s = payload := by
  simp only [valueEqual, Bool.and_eq_true, beq_iff_eq] at h
  obtain ⟨hk, h⟩ := h
  cases payload
  all_goals
    simp only [Payload.kind] at hk
    simp only [slotPayload, hk]
  case symbol => rw [beq_iff_eq.mp h]
  all_goals simp only [Bool.and_eq_true, bne_iff_ne, beq_iff_eq] at h
  all_goals simp [h.2]

def slotHash (t : ValueTable) (names : List (List Byte)) (s : ValueSlot) : Nat :=
  (valueHash (t.slotPayload s) (text names (t.slotPayload s))).toNat

theorem Stored.le (h : t.Stored id payload) : id ≠ 0 ∧ id ≤ t.kinds.length := by
  have := (List.getElem?_eq_some_iff.mp h.kind).1
  exact ⟨h.ne_zero, by omega⟩

theorem Stored.inj {payload' : Payload} (h : t.Stored id payload) (h' : t.Stored id payload') :
    payload = payload' := by
  have ⟨ref, hr, he⟩ := h.ref
  have ⟨ref', hr', he'⟩ := h'.ref
  have hk := h.kind.symm.trans h'.kind
  rw [Option.some.injEq] at hk
  rw [hr, Option.some.injEq] at hr'
  subst hr'
  have hs : t.slotPayload ⟨payload.kind, ref, id⟩ = payload := slotPayload_of_valueEqual he
  have hs' : t.slotPayload ⟨payload.kind, ref, id⟩ = payload' := slotPayload_of_valueEqual (hk ▸ he')
  exact hs.symm.trans hs'

-- Every value has its slot, on the way from its hash on, and no payload has two values.
structure Sound (t : ValueTable) (names : List (List Byte)) : Prop where
  length : t.refs.length = t.kinds.length
  slots : ∀ s, some s ∈ t.slots →
    s.id ≠ 0 ∧ t.kinds[s.id - 1]? = some s.kind ∧ t.refs[s.id - 1]? = some s.ref
  slot : ∀ id, id ≠ 0 → id ≤ t.kinds.length → ∃ s, some s ∈ t.slots ∧ s.id = id
  stored : ∀ id, id ≠ 0 → id ≤ t.kinds.length → ∃ payload, t.Stored id payload ∧ Known names payload
  unique : ∀ id id' payload, t.Stored id payload → t.Stored id' payload → id = id'
  placed : Probe.Placed (slotHash t names) t.slots
  filled : Probe.filled t.slots = t.kinds.length

theorem Sound.stored_of_valueEqual (h : t.Sound names) (hs : some s ∈ t.slots)
    (he : t.valueEqual s.kind s.ref payload) : t.Stored s.id payload := by
  have ⟨h0, hk, hr⟩ := h.slots s hs
  have hkind : s.kind = payload.kind := by
    simp only [valueEqual, Bool.and_eq_true, beq_iff_eq] at he
    exact he.1
  exact ⟨h0, hkind ▸ hk, s.ref, hr, hkind ▸ he⟩

theorem Sound.valueEqual_of_stored (h : t.Sound names) (hs : some s ∈ t.slots)
    (hp : t.Stored s.id payload) : t.valueEqual s.kind s.ref payload := by
  have ⟨_, hk, hr⟩ := h.slots s hs
  have ⟨ref, hr', he⟩ := hp.ref
  have hkind := hp.kind
  rw [hk, Option.some.injEq] at hkind
  rw [hr, Option.some.injEq] at hr'
  rw [hkind, hr']
  exact he

theorem Sound.slotHash_eq (h : t.Sound names) (ext : Extends t t') (hn : names <+: names')
    (hs : some s ∈ t.slots) : slotHash t' names' s = slotHash t names s := by
  have ⟨h0, hk, _⟩ := h.slots s hs
  have hlt := (List.getElem?_eq_some_iff.mp hk).1
  have ⟨payload, hp, known⟩ := h.stored s.id h0 (by omega)
  have he := h.valueEqual_of_stored hs hp
  rw [slotHash, slotHash, slotPayload_of_valueEqual he, slotPayload_of_valueEqual (ext.valueEqual he),
    text_of_known known hn]

theorem Sound.mono (h : t.Sound names) (hn : names <+: names') : t.Sound names' where
  length := h.length
  slots := h.slots
  slot := h.slot
  stored id h0 hle := have ⟨payload, hp, known⟩ := h.stored id h0 hle; ⟨payload, hp, known.mono hn⟩
  unique := h.unique
  placed := h.placed.congr fun _ hs => h.slotHash_eq (.refl t) hn hs
  filled := h.filled

theorem sound_empty (slots : Nat) :
    Sound ⟨[], [], [], [], [], List.replicate slots none⟩ names where
  length := rfl
  slots s hs := by cases (List.mem_replicate.mp hs).2
  slot id h0 hle := absurd (Nat.le_zero.mp hle) h0
  stored id h0 hle := absurd (Nat.le_zero.mp hle) h0
  unique id _ _ h := absurd (Nat.le_zero.mp h.le.2) h.le.1
  placed := Probe.placed_replicate _ slots
  filled := Probe.filled_replicate slots

theorem Sound.not_stored_of_vacant (h : t.Sound names) {slot : Nat}
    (hh : hash = valueHash payload (text names payload))
    (hf : Probe.find t.slots (fun s => t.valueEqual s.kind s.ref payload) hash.toNat = .vacant slot) :
    ∀ id, ¬t.Stored id payload := by
  intro id hp
  have ⟨s, hs, he⟩ := h.slot id hp.le.1 hp.le.2
  have heq := h.valueEqual_of_stored hs (he ▸ hp)
  have hhash : slotHash t names s = hash.toNat := by
    rw [slotHash, slotPayload_of_valueEqual heq, hh]
  have := Probe.not_same_of_vacant h.placed hf hs hhash
  rw [heq] at this
  cases this

theorem Sound.intern (h : t.Sound names) (known : Known names payload)
    (hh : hash = valueHash payload (text names payload)) (hi : t.intern hash payload = .ok (t', id)) :
    t'.Sound names ∧ Extends t t' ∧ t'.Stored id payload ∧ t'.slots.length = t.slots.length ∧
      t'.kinds.length ≤ t.kinds.length + 1 := by
  have ⟨_, hi⟩ := of_guard hi
  split at hi
  case h_1 => cases hi
  case h_2 s hf =>
    cases hi
    have ⟨hs, he⟩ := Probe.mem_of_find hf
    exact ⟨h, .refl t, h.stored_of_valueEqual hs he, rfl, Nat.le_succ _⟩
  case h_3 slot hf =>
    have hnew := h.not_stored_of_vacant hh hf
    have ⟨_, hi⟩ := of_guard hi
    have ⟨(t₁, ref), h₁, hi⟩ := of_bind hi
    cases hi
    have ⟨ext₁, hk, hr, hslots, heq⟩ := appendValuePayload_eq_ok h₁
    rw [hk, hr, hslots]
    let t₂ : ValueTable := { t₁ with
      kinds := t.kinds ++ [payload.kind]
      refs := t.refs ++ [ref]
      slots := t.slots.set slot (some ⟨payload.kind, ref, t.kinds.length + 1⟩) }
    have ext : Extends t t₂ :=
      ⟨List.prefix_append _ _, List.prefix_append _ _, ext₁.integers, ext₁.booleans, ext₁.timestamps⟩
    have hlast : (t.refs ++ [ref])[t.kinds.length]? = some ref := by simp [← h.length]
    have stored : t₂.Stored (t.kinds.length + 1) payload :=
      ⟨Nat.succ_ne_zero _, by simp [t₂], ref, hlast, heq⟩
    have hlen : t₂.kinds.length = t.kinds.length + 1 := by simp [t₂]
    -- A value is an old one or the new one.
    have hcase : ∀ id payload', t₂.Stored id payload' →
        t.Stored id payload' ∨ id = t.kinds.length + 1 ∧ payload' = payload := fun id payload' hp => by
      have ⟨h0, hle⟩ := hp.le
      rw [hlen] at hle
      rcases Nat.lt_or_eq_of_le hle with hlt | rfl
      · have ⟨old, ho, _⟩ := h.stored id h0 (by omega)
        exact .inl ((ext.stored ho).inj hp ▸ ho)
      · exact .inr ⟨rfl, hp.inj stored⟩
    refine ⟨⟨?_, fun s hm => ?_, fun id h0 hle => ?_, fun id h0 hle => ?_, fun id id' payload' hp hp' => ?_,
      ?_, ?_⟩, ext, stored, List.length_set, hlen.le⟩
    case refine_1 => simp [h.length]
    case refine_2 =>
      rcases (Probe.mem_set_vacant hf).mp hm with rfl | hm
      case inl => exact ⟨Nat.succ_ne_zero _, by simp, hlast⟩
      case inr =>
        have ⟨h0, hsk, hsr⟩ := h.slots s hm
        exact ⟨h0, Ragged.getElem?_of_prefix ext.kinds hsk, Ragged.getElem?_of_prefix ext.refs hsr⟩
    case refine_3 =>
      rw [hlen] at hle
      rcases Nat.lt_or_eq_of_le hle with hlt | rfl
      · have ⟨s, hs, he⟩ := h.slot id h0 (by omega)
        exact ⟨s, (Probe.mem_set_vacant hf).mpr (.inr hs), he⟩
      · exact ⟨_, (Probe.mem_set_vacant hf).mpr (.inl rfl), rfl⟩
    case refine_4 =>
      rw [hlen] at hle
      rcases Nat.lt_or_eq_of_le hle with hlt | rfl
      · have ⟨old, ho, hold⟩ := h.stored id h0 (by omega)
        exact ⟨old, ext.stored ho, hold⟩
      · exact ⟨payload, stored, known⟩
    case refine_5 =>
      rcases hcase id payload' hp with hp | ⟨rfl, rfl⟩ <;> rcases hcase id' _ hp' with hp' | ⟨rfl, he⟩
      · exact h.unique id id' payload' hp hp'
      · exact absurd (he ▸ hp) (hnew id)
      · exact absurd hp' (hnew id')
      · rfl
    case refine_6 =>
      have hhash : slotHash t₂ names ⟨payload.kind, ref, t.kinds.length + 1⟩ = hash.toNat := by
        have he : t₂.slotPayload ⟨payload.kind, ref, t.kinds.length + 1⟩ = payload :=
          slotPayload_of_valueEqual heq
        rw [slotHash, he, hh]
      exact Probe.Placed.set (h.placed.congr fun s hs => h.slotHash_eq ext (List.prefix_refl _) hs)
        (hhash ▸ hf)
    case refine_7 => rw [Probe.filled_set hf, h.filled, List.length_append, List.length_singleton]

end ValueTable

def Document.HasPayload (doc : Document) (names : List (List Byte)) (id : Nat) : Payload → Prop
  | .symbol s => s ≠ 0 ∧ ∃ b, doc.symbolValue id = some b ∧ names[s - 1]? = some b
  | .integer v => doc.integerValue id = some v
  | .boolean b => doc.booleanValue id = some b
  | .timestamp v => doc.timestampValue id = some v

variable {doc : Document} {fields : Schema} {symbols : Interner}

theorem Document.HasPayload.mono {names names' : List (List Byte)} {id : Nat} {payload : Payload}
    (h : doc.HasPayload names id payload) (hn : names <+: names') :
    doc.HasPayload names' id payload := by
  cases payload
  case symbol s =>
    have ⟨h0, b, hb, hs⟩ := h
    exact ⟨h0, b, hb, Ragged.getElem?_of_prefix hn hs⟩
  all_goals exact h

namespace Document

variable {doc : Document} {id : Nat}

theorem literal_eq_some {kind : ValueKind} {r : Nat} (h : doc.literal id kind = some r)
    (hk : literalKind kind) : doc.literalValueKind id = some kind := by
  simp only [literal, Option.bind_eq_bind, Option.bind_eq_some_iff] at h
  obtain ⟨i, hi, h⟩ := h
  split at h
  case isFalse => cases h
  case isTrue he =>
    have hlt : i < doc.valueKinds.length := by
      simp only [valueIndex, Option.ite_none_left_eq_some, Option.some.injEq] at hi
      omega
    rw [List.getD_eq_getElem _ _ hlt] at he
    simp [literalValueKind, hi, hlt, he, hk]

theorem HasPayload.kind {names : List (List Byte)} {payload : Payload}
    (h : doc.HasPayload names id payload) : doc.literalValueKind id = some payload.kind := by
  cases payload
  case symbol s =>
    have ⟨_, b, hb, _⟩ := h
    simp only [symbolValue, Option.bind_eq_bind, Option.bind_eq_some_iff] at hb
    obtain ⟨r, hr, _⟩ := hb
    exact literal_eq_some hr rfl
  case integer | boolean | timestamp =>
    simp only [HasPayload, integerValue, booleanValue, timestampValue, Option.bind_eq_bind,
      Option.bind_eq_some_iff] at h
    obtain ⟨r, hr, _⟩ := h
    exact literal_eq_some hr rfl

end Document

def Payload.symbolID : Payload → Nat
  | symbol id => id
  | _ => 0

namespace ValueWalk

variable {doc : Document} {names : List (List Byte)} {w w' : ValueWalk} {n : Nat}

structure Sound (w : ValueWalk) (doc : Document) (names : List (List Byte)) (n : Nat) : Prop where
  symbols : w.symbols.Holds names
  values : w.values.Sound names
  kinds : w.values.kinds.length ≤ n
  remap : w.valueRemap.length = n
  remap' : w.symbolRemap.length = n
  literal : ∀ i < n, ∃ payload, doc.HasPayload names (i + 1) payload ∧
    w.values.Stored (w.valueRemap.getD i 0) payload ∧ w.symbolRemap.getD i 0 = payload.symbolID

variable {t : SymbolTable} {payload : Payload} {id : Nat}

theorem payload_eq_ok {t' : SymbolTable} {i : Nat} {text : List Byte} (ht : t.Holds names)
    (h : ValueWalk.payload doc t i = .ok (t', payload, text)) :
    ∃ names', names <+: names' ∧ names'.length ≤ names.length + 1 ∧ t'.Holds names' ∧
      t'.slots.length = t.slots.length ∧ doc.HasPayload names' (i + 1) payload ∧
      ValueTable.Known names' payload ∧ text = ValueTable.text names' payload := by
  revert h
  fun_cases ValueWalk.payload doc t i
  all_goals intro h
  case case2 b hb =>
    have ⟨(t₁, id), h₁, h⟩ := of_bind h
    cases h
    have ⟨holds, hid, hslots⟩ := ht.intern h₁
    have hlt := List.idxOf_lt_length_iff.mpr (SymbolTable.mem_interned names text)
    have hget : (SymbolTable.interned names text)[id - 1]? = some text := by
      rw [hid, Nat.add_sub_cancel, List.getElem?_eq_getElem hlt, List.getElem_idxOf]
    refine ⟨_, SymbolTable.interned_extends names text, SymbolTable.length_interned_le names text, holds,
      hslots, ⟨by omega, text, hb, hget⟩, ⟨by omega, by omega⟩, ?_⟩
    rw [ValueTable.text, List.getD_eq_getElem?_getD, hget, Option.getD_some]
  all_goals cases h
  case case4 hv | case6 hv | case8 hv =>
    exact ⟨names, List.prefix_refl _, Nat.le_succ _, ht, rfl, hv, trivial, rfl⟩

theorem step_eq_ok (hs : step doc w n = .ok w') :
    ∃ t payload text values id, ValueWalk.payload doc w.symbols n = .ok (t, payload, text) ∧
      w.values.intern (valueHash payload text) payload = .ok (values, id) ∧
      w' = ⟨t, values, w.valueRemap ++ [id], w.symbolRemap ++ [payload.symbolID]⟩ := by
  have ⟨(t, payload, text), hp, hs⟩ := of_bind hs
  have ⟨(values, id), hv, hs⟩ := of_bind hs
  cases hs
  refine ⟨t, payload, text, values, id, hp, hv, ?_⟩
  cases payload <;> rfl

-- A walk over the first literals of a document, from some symbols on.
structure Walked (doc : Document) (t : SymbolTable) (count valueSize n : Nat) (w : ValueWalk) : Prop where
  sound : ∃ names, w.Sound doc names n ∧ names.length ≤ count + n
  symbolSlots : w.symbols.slots.length = t.slots.length
  valueSlots : w.values.slots.length = valueSize

variable {count valueSize : Nat}

theorem walked_start (ht : t.Holds names) (hn : names.length ≤ count) :
    Walked doc t count valueSize 0 ⟨t, ⟨[], [], [], [], [], List.replicate valueSize none⟩, [], []⟩ :=
  ⟨⟨names, ⟨ht, ValueTable.sound_empty valueSize, Nat.le_refl 0, rfl, rfl, nofun⟩, hn⟩, rfl,
    List.length_replicate⟩

theorem Walked.step (h : Walked doc t count valueSize n w) (hs : step doc w n = .ok w') :
    Walked doc t count valueSize (n + 1) w' := by
  have ⟨⟨names, sound, hcount⟩, hsymbols, hvalues⟩ := h
  obtain ⟨t, payload, text, values, id, hp, hv, rfl⟩ := step_eq_ok hs
  have ⟨names', hn, hlen, holds, hslots, hpayload, known, htext⟩ := payload_eq_ok sound.symbols hp
  have ⟨interned, ext, stored, hslots', hkinds⟩ := (sound.values.mono hn).intern known (htext ▸ rfl) hv
  have := sound.kinds
  refine ⟨⟨names', ⟨holds, interned, by dsimp only; omega, by simp [sound.remap], by simp [sound.remap'],
    fun i hi => ?_⟩, by omega⟩, hslots.trans hsymbols, hslots'.trans hvalues⟩
  rcases Nat.lt_succ_iff_lt_or_eq.mp hi with hi | rfl
  case inl =>
    have ⟨payload, hp, hstored, hsymbol⟩ := sound.literal i hi
    refine ⟨payload, hp.mono hn, ?_, ?_⟩
    · rw [List.getD_append _ _ _ _ (sound.remap ▸ hi)]
      exact ext.stored hstored
    · rw [List.getD_append _ _ _ _ (sound.remap' ▸ hi)]
      exact hsymbol
  case inr =>
    refine ⟨payload, hpayload, ?_, Ragged.getD_concat_length sound.remap'⟩
    rw [Ragged.getD_concat_length sound.remap]
    exact stored

theorem walked_canonicalizeValues (ht : t.Holds names) (hn : names.length ≤ count)
    (h : canonicalizeValues doc t ⟨[], [], [], [], [], List.replicate valueSize none⟩ = .ok w) :
    Walked doc t count valueSize doc.valueKinds.length w :=
  foldlM_range h (walked_start ht hn) fun _ _ _ _ hs hw => hw.step hs

theorem Sound.canonicalValue_eq_ok (h : w.Sound doc names n) {v : Nat}
    (hv : w.canonicalValue id = .ok v) :
    ∃ payload, doc.HasPayload names id payload ∧ w.values.Stored v payload := by
  have ⟨hrange, hv⟩ := of_guard hv
  have ⟨_, hv⟩ := of_guard hv
  cases hv
  rw [not_or, Nat.not_lt, h.remap] at hrange
  obtain ⟨i, rfl⟩ := Nat.exists_eq_succ_of_ne_zero hrange.1
  have ⟨payload, hp, hs, _⟩ := h.literal i hrange.2
  exact ⟨payload, hp, hs⟩

theorem Sound.symbolForValue_eq_ok (h : w.Sound doc names n) {s : Nat}
    (hs : w.symbolForValue id = .ok s) :
    s ≠ 0 ∧ ∃ b, doc.symbolValue id = some b ∧ names[s - 1]? = some b := by
  have ⟨hrange, hs⟩ := of_guard hs
  have ⟨hkind, hs⟩ := of_guard hs
  have ⟨heq, hs⟩ := of_guard hs
  cases hs
  rw [not_or, Nat.not_lt, h.remap] at hrange
  obtain ⟨i, rfl⟩ := Nat.exists_eq_succ_of_ne_zero hrange.1
  have ⟨payload, hp, hstored, hremap⟩ := h.literal i hrange.2
  simp only [Nat.succ_eq_add_one, Nat.add_sub_cancel, not_or, not_not] at hkind heq ⊢
  rw [hstored.kind, Option.some.injEq] at hkind
  rw [heq, hremap]
  cases payload
  case symbol s => exact hp
  all_goals cases hkind.2.1

end ValueWalk

section Fields

variable {size : Nat} {s s' : SymbolTable × List Nat} {i : Nat}

-- The symbols after some fields. No field adds more than one.
structure FieldsLowered (size n : Nat) (s : SymbolTable × List Nat) : Prop where
  holds : ∃ names, s.1.Holds names ∧ names.length ≤ n
  slots : s.1.slots.length = size

theorem fieldsLowered_start : FieldsLowered size 0 (⟨[], [], [], List.replicate size none⟩, []) :=
  ⟨⟨[], SymbolTable.holds_empty _, Nat.le_refl 0⟩, List.length_replicate⟩

theorem FieldsLowered.step (hs : FieldsLowered size i s) (h : lowerField fields symbols s i = .ok s') :
    FieldsLowered size (i + 1) s' := by
  have ⟨⟨names, holds, hle⟩, hsize⟩ := hs
  revert h
  fun_cases lowerField fields symbols s i
  all_goals intro h
  case case4 b _ _ =>
    have ⟨(t, id), ht, h⟩ := of_bind h
    cases h
    have ⟨holds', _, hslots⟩ := holds.intern ht
    have := SymbolTable.length_interned_le names b
    exact ⟨⟨_, holds', by omega⟩, hslots.trans hsize⟩
  all_goals cases h

theorem fieldsLowered_lowerFieldSchema {t : SymbolTable} {fieldNames : List Nat}
    (h : lowerFieldSchema ⟨[], [], [], List.replicate size none⟩ fields symbols = .ok (t, fieldNames)) :
    FieldsLowered size fields.len (t, fieldNames) :=
  foldlM_range h fieldsLowered_start fun _ _ _ _ h hs => hs.step h

end Fields

structure ConstantParts (doc : Document) (fields : Schema) (c : Constants) (names : List (List Byte)) :
    Prop where
  holds : c.Holds names
  literals : c.toValueWalk.Sound doc names doc.valueKinds.length
  fieldKinds : c.fieldKinds = fields.kinds
  fieldGroups : c.fieldGroups = fields.groups
  evidenceKindNames : c.translateCatalogNames doc.evidenceKindNames doc.evidenceKindSourceStarts
    doc.evidenceKindSourceEnds = .ok c.evidenceKindNames
  evidenceStateNames : c.translateCatalogNames doc.evidenceStateNames doc.evidenceStateSourceStarts
    doc.evidenceStateSourceEnds = .ok c.evidenceStateNames

theorem lowerConstants_walk {c : Constants} (h : lowerConstants doc fields symbols = .ok c) :
    ∃ t symbolSize valueSize frozen,
      lowerFieldSchema ⟨[], [], [], List.replicate symbolSize none⟩ fields symbols = .ok (t, c.fieldNames) ∧
      canonicalizeValues doc t ⟨[], [], [], [], [], List.replicate valueSize none⟩ = .ok c.toValueWalk ∧
      freezeSymbolSlots c.symbols = .ok frozen ∧
      c.symbolHashes = frozen.map (fun slot => (slot.map (·.hash)).getD 0) ∧
      c.symbolIDs = frozen.map (fun slot => (slot.map (·.id)).getD 0) ∧
      c.fieldKinds = fields.kinds ∧ c.fieldGroups = fields.groups ∧
      c.translateCatalogNames doc.evidenceKindNames doc.evidenceKindSourceStarts
        doc.evidenceKindSourceEnds = .ok c.evidenceKindNames ∧
      c.translateCatalogNames doc.evidenceStateNames doc.evidenceStateSourceStarts
        doc.evidenceStateSourceEnds = .ok c.evidenceStateNames := by
  simp only [lowerConstants] at h
  have ⟨_, h⟩ := of_guard h
  have ⟨symCap, _, h⟩ := of_bind h
  have ⟨_, h⟩ := of_guard h
  have ⟨(t, fieldNames), ht, h⟩ := of_bind h
  have ⟨w, hw, h⟩ := of_bind h
  have ⟨kinds, hkinds, h⟩ := of_bind h
  have ⟨states, hstates, h⟩ := of_bind h
  split at h
  case h_1 => cases h
  case h_2 =>
    have ⟨_, _, h⟩ := of_bind h
    have ⟨_, _, h⟩ := of_bind h
    split at h
    case isTrue => cases h
    case isFalse =>
      have ⟨frozen, hf, h⟩ := of_bind h
      cases h
      exact ⟨t, _, _, frozen, ht, hw, hf, rfl, rfl, rfl, rfl, hkinds, hstates⟩

theorem lowerConstants_eq_ok {c : Constants} (h : lowerConstants doc fields symbols = .ok c) :
    ∃ names, ConstantParts doc fields c names := by
  have ⟨t, _, _, frozen, ht, hw, hf, hhashes, hids, parts⟩ := lowerConstants_walk h
  have ⟨names, holds, hle⟩ := (fieldsLowered_lowerFieldSchema ht).holds
  have ⟨names', hw, _⟩ := (ValueWalk.walked_canonicalizeValues holds hle hw).sound
  exact ⟨names', ⟨hw.symbols, frozen, freezeSymbolSlots_frozen hw.symbols hf, hhashes, hids⟩, hw,
    parts.1, parts.2.1, parts.2.2.1, parts.2.2.2⟩

end NornRune
