import NornRune.Compile.Theorems.Refines

open Checked

-- The index of the symbols that a program compares often.
namespace NornRune

section FactSpec

variable {c : Constants} {fieldIndex : FieldIndex} {rows : List InstructionRow} {spec : FactSpec}

theorem selectorSymbol_eq_ok {value symbol : Nat} (h : c.selectorSymbol value = .ok symbol) :
    value ≠ 0 ∧ c.values.kinds[value - 1]? = some .symbol ∧ c.values.refs[value - 1]? = some symbol ∧
      symbol ≠ 0 ∧ symbol ≤ c.programSymbolCount := by
  have ⟨hv, h⟩ := of_guard h
  have ⟨hs, h⟩ := of_guard h
  cases h
  simp only [not_or, not_not, Nat.not_lt] at hv hs
  refine ⟨hv.1, hv.2.1, ?_, hs⟩
  have hlt : value - 1 < c.values.refs.length := by omega
  rw [List.getElem?_eq_getElem hlt, List.getD_eq_getElem _ _ hlt]

theorem factUses_cases {row : InstructionRow} {symbols : List Nat} (h : factUses c row = .ok symbols) :
    (row.opcode = .equal ∨ row.opcode = .notEqual ∨ row.opcode = .in →
      c.fieldKinds.getD (row.field - 1) .invalid ≠ .symbol) ∧ symbols = [] ∨
    row.opcode = .in ∧ row.list.mapM c.selectorSymbol = .ok symbols ∨
    (row.opcode = .equal ∨ row.opcode = .notEqual) ∧
      ∃ symbol, c.selectorSymbol row.value = .ok symbol ∧ symbols = [symbol] := by
  cases ho : row.opcode
  case equal | notEqual | «in» =>
    simp only [factUses, ho] at h
    have ⟨_, h⟩ := of_guard h
    split at h
    case isTrue hk =>
      cases h
      exact .inl ⟨fun _ => hk, rfl⟩
    case isFalse =>
      first
      | exact .inr (.inl ⟨rfl, h⟩)
      | have ⟨symbol, hs, h⟩ := of_bind h
        cases h
        exact .inr (.inr ⟨by simp, symbol, hs, rfl⟩)
  all_goals
    simp only [factUses, ho] at h
    cases h
    exact .inl ⟨by simp, rfl⟩

theorem selectorSymbol_of_factUses {row : InstructionRow} {symbols : List Nat}
    (h : factUses c row = .ok symbols) {symbol : Nat} (hm : symbol ∈ symbols) :
    ∃ value, c.selectorSymbol value = .ok symbol := by
  rcases factUses_cases h with ⟨_, rfl⟩ | ⟨_, hlist⟩ | ⟨_, symbol', hs, rfl⟩
  case inl => cases hm
  case inr.inl =>
    have ⟨value, _, hv⟩ := exists_of_mem_mapM hlist hm
    exact ⟨value, hv⟩
  case inr.inr => exact ⟨_, List.mem_singleton.mp hm ▸ hs⟩

structure FactsIndexed (c : Constants) (fieldIndex : FieldIndex) (rows : List InstructionRow)
    (spec : FactSpec) : Prop where
  valid : spec.valid fieldIndex c.programSymbolCount
  symbols : ∀ symbol ∈ spec.values, symbol ≠ 0 ∧ symbol ≤ c.programSymbolCount
  field : ∀ (fieldRow field : Nat), spec.fieldIDs[fieldRow]? = some field →
    (fieldIndex.lookup field).any (·.1 == .symbol)
  uses : ∀ (fieldRow field : Nat), spec.fieldIDs[fieldRow]? = some field → ∀ row ∈ rows,
    row.field = field → ∃ symbols, factUses c row = .ok symbols ∧
      ∀ symbol ∈ symbols, symbol ∈ spec.fieldValues fieldRow

theorem lowerFactIndexSpec_eq_ok (h : lowerFactIndexSpec c fieldIndex rows = .ok spec) :
    FactsIndexed c fieldIndex rows spec := by
  have ⟨uses, huses, h⟩ := of_bind h
  simp only at h
  have ⟨_, h⟩ := of_guard h
  have ⟨hsymbol, h⟩ := of_guard h
  have ⟨hvalid, h⟩ := of_guard h
  cases h
  simp only [Bool.not_eq_true', Bool.not_eq_false] at hvalid hsymbol
  rw [List.all_eq_true] at hsymbol
  refine ⟨hvalid, fun symbol hm => ?_, fun fieldRow field hf => hsymbol field (List.mem_of_getElem? hf),
    fun fieldRow field hf row hrow he => ?_⟩
  case refine_1 =>
    simp only [List.mem_flatten, List.mem_map] at hm
    obtain ⟨_, ⟨field, _, rfl⟩, hm⟩ := hm
    have ⟨use, hu, hm⟩ := List.mem_flatMap.mp (Sorted.mem_sortUnique.mp hm)
    have ⟨row, _, huse⟩ := exists_of_mem_mapM huses (List.mem_of_mem_filter hu)
    have ⟨symbols, hs, huse⟩ := of_bind huse
    cases huse
    have ⟨value, hv⟩ := selectorSymbol_of_factUses hs hm
    exact (selectorSymbol_eq_ok hv).2.2.2
  case refine_2 =>
    have ⟨use, hmem, huse⟩ := ok_of_mem_mapM huses hrow
    have ⟨symbols, hs, huse⟩ := of_bind huse
    cases huse
    refine ⟨symbols, hs, fun symbol hm => ?_⟩
    simp only at hf
    -- The values of the field are behind those of the fields before it.
    have hvalues := List.getElem?_map.trans (congrArg (Option.map fun field =>
      Sorted.sortUnique ((uses.filter (·.1 == field)).flatMap (·.2))) hf)
    rw [Option.map_some] at hvalues
    have hlt := (List.getElem?_eq_some_iff.mp hvalues).1
    have hstart := Ragged.getElem?_starts hlt
    have hread := Ragged.take_drop_flatten hvalues
    simp only [FactSpec.fieldValues, Region.read, List.getD_eq_getElem?_getD, hstart,
      List.getElem?_map, hvalues, Option.map_some, Option.getD_some]
    rw [hread, Sorted.mem_sortUnique, List.mem_flatMap]
    exact ⟨_, List.mem_filter.mpr ⟨hmem, by simpa using he⟩, hm⟩

end FactSpec

section Queries

variable {doc : Document} {fields : Schema} {symbols : Interner} {c : Constants} {t : ScheduledTable}
  {s : Semantics} {slots : Slots} {indexes : Indexes} {p : Program} {names : List (List Byte)}

theorem isSome_symbol (a : Assembled c t s slots indexes p) (named : p.Named names) {symbol : Nat}
    (h0 : symbol ≠ 0) (hle : symbol ≤ c.programSymbolCount) : (p.symbol symbol).isSome := by
  rw [← a.programSymbolCount, named.count] at hle
  rw [named.symbol_eq h0, List.getElem?_eq_getElem (show symbol - 1 < names.length by omega)]
  rfl

theorem factIndexQuerySymbol_of_selector (a : Assembled c t s slots indexes p) (named : p.Named names)
    {value symbol : Nat} (h : c.selectorSymbol value = .ok symbol) :
    factIndexQuerySymbol p value = some symbol := by
  have ⟨h0, hk, hr, hs0, hs⟩ := selectorSymbol_eq_ok h
  have hsome := isSome_symbol a named hs0 hs
  rw [← a.programSymbolCount] at hs
  unfold factIndexQuerySymbol
  rw [if_neg h0, a.valueKinds, a.valueRefs, hk, hr]
  simp only
  rw [if_neg]
  rw [Option.isNone_iff_eq_none]
  rintro (h | h | h)
  · exact hs0 h
  · omega
  · rw [h] at hsome
    cases hsome

theorem Made.value_of_in {w : ValueWalk} {canon : Nat → Nat} {flat : Nat → List Nat} {node : Nat}
    {cand : Candidate} (h : Made w doc canon flat node cand) (ho : cand.opcode = .in) :
    cand.value = 0 := by
  cases h
  case single op opcode _ _ hop hn _ _ =>
    cases op <;> cases hop <;> first | exact absurd rfl hn | cases ho
  case boolean => cases ho
  all_goals rfl

theorem Lineage.queries (h : Lineage doc fields symbols p) : validFactIndexQueries p := by
  have a := h.low.columns
  obtain ⟨_, index⟩ := lowerIndexes_eq_ok h.low.indexes
  have facts := lowerFactIndexSpec_eq_ok index.facts
  have hbuild := index.fields
  have hlen := h.length_opcodes
  rw [← a.factIndexSpec, ← a.fieldIndex] at facts
  rw [← a.fieldIndex] at hbuild
  have shaped := FactSpec.shaped_of_validShape (by
    have := facts.valid
    simp only [FactSpec.valid, Bool.and_eq_true] at this
    exact this.1.2)
  simp only [validFactIndexQueries, Bool.or_eq_true, beq_iff_eq, Bool.and_eq_true, List.all_eq_true,
    List.mem_range]
  refine .inr ⟨fun symbol hm => ?_, fun i hi => ?_⟩
  case refine_1 => exact isSome_symbol a h.named (facts.symbols symbol hm).1 (facts.symbols symbol hm).2
  case refine_2 =>
    rw [hlen] at hi
    have hrow : h.t.rows[i]? = some h.t.rows[i] := List.getElem?_eq_getElem hi
    have has := a.hasRow hrow
    generalize h.t.rows[i] = row at hrow has
    rw [has.field, has.opcode, has.value, has.list]
    split
    case h_1 => rfl
    case h_2 fieldRow hsearch =>
      have hfield := BinarySearch.search_sound hsearch
      obtain ⟨symbols, huses, hmem⟩ := facts.uses fieldRow _ hfield row (List.mem_of_getElem? hrow) rfl
      have ascending := (shaped.field fieldRow (List.getElem?_eq_some_iff.mp hfield).1).ascending
      have hcontains : ∀ value symbol, h.c.selectorSymbol value = .ok symbol → symbol ∈ symbols →
          factSpecContains p (p.factIndexSpec.fieldValues fieldRow) value := by
        intro value symbol hv hs
        rw [factSpecContains, factIndexQuerySymbol_of_selector a h.named hv]
        exact (BinarySearch.search_isSome_iff ascending).mpr (hmem symbol hs)
      have hkind : h.c.fieldKinds.getD (row.field - 1) .invalid = .symbol :=
        FieldIndex.kind_of_lookup hbuild (facts.field fieldRow _ hfield)
      have hcases := factUses_cases huses
      cases ho : row.opcode
      case equal | notEqual =>
        rcases hcases with ⟨hno, _⟩ | ⟨hin, _⟩ | ⟨_, symbol, hs, rfl⟩
        · exact absurd hkind (hno (by simp [ho]))
        · rw [ho] at hin
          cases hin
        · exact hcontains _ symbol hs (List.mem_singleton_self symbol)
      case «in» =>
        rcases hcases with ⟨hno, _⟩ | ⟨_, hlist⟩ | ⟨heq, _⟩
        · exact absurd hkind (hno (by simp [ho]))
        · obtain ⟨cand, _, _, _, _, made, he⟩ := h.tr.origin hrow
          have hvalue : row.value = 0 := by
            rw [he] at ho ⊢
            exact made.value_of_in ho
          simp only [Bool.and_eq_true, beq_iff_eq, List.all_eq_true]
          refine ⟨hvalue, fun value hm => ?_⟩
          obtain ⟨symbol, hs, hv⟩ := ok_of_mem_mapM hlist hm
          exact hcontains value symbol hv hs
        · rw [ho] at heq
          rcases heq with heq | heq <;> cases heq
      all_goals rfl

end Queries
end NornRune
