import NornRune.Compile.Theorems.Correct

open Bitplane Checked

-- The index of facts: a lookup answers with the rows that have the value, however often the builder
-- is used, and the specification that a program comes with lists whatever the program tests.
namespace NornRune

section Reuse

namespace FactBuilder

-- The builders that there are: a new one, and what a build leaves. A build that fails changes nothing.
inductive Reachable : FactBuilder → Prop
  | new : Reachable ⟨.empty⟩
  | build {b b' : FactBuilder} {heap : Heap} {addr : Nat} {columns : SymbolColumns} {index : FactIndex} :
    Reachable b → b.build heap addr columns = .ok (b', index) → Reachable b'

theorem Reachable.clean {b : FactBuilder} (h : b.Reachable) : Clean b.valueRows := by
  induction h
  case new => exact clean_empty
  case build hb clean => exact (build_eq_ok clean hb).clean

variable {b : FactBuilder} {heap : Heap} {addr : Nat} {columns : SymbolColumns}

theorem build_lookup (hb : b.Reachable) (hc : columns.Strided)
    (hs : (heap addr).factIndexSpec.validShape columns.count columns.programSymbolCount) :
    ∃ b' index, b.build heap addr columns = .ok (b', index) ∧ b'.Reachable ∧ Clean b'.valueRows ∧
      ∀ f field, (heap addr).factIndexSpec.fieldIDs[f]? = some field → ∀ v,
        (v ∈ (heap addr).factIndexSpec.fieldValues f → ∃ mask,
          index.lookup heap field v = some (some mask) ∧ mask.length = wordCount columns.rows ∧
          ∀ r, bit mask r = true ↔ r < columns.rows ∧
            columns.values.getD ((heap addr).factIndexSpec.columns.getD f 0 * columns.stride +
              columns.rowOffset + r) 0 = v) ∧
        (v ∉ (heap addr).factIndexSpec.fieldValues f → index.lookup heap field v = some none) := by
  have ⟨b', index, h⟩ := exists_build b hs hc
  have built := build_eq_ok hb.clean h
  exact ⟨b', index, h, hb.build h, built.clean, fun f field hf v =>
    ⟨fun hv => built.lookup_of_mem hf hv, fun hv => built.lookup_of_not_mem hf hv⟩⟩

def twoFields : Heap := fun _ =>
  { Scheduler.definedField with
    factIndexSpec := ⟨[1, 3], [0, 1], [0, 2], [2, 1], [1, 1], [1, 2, 2]⟩ }

def fourRows : SymbolColumns where
  values := [2, 1, 2, 9, 2, 2, 1, 2]
  rows := 3
  count := 2
  programSymbolCount := 2
  rowOffset := 1
  rowStride := 4

theorem build_lookup_twoFields : ∃ b' index,
    build ⟨.empty⟩ twoFields 0 fourRows = .ok (b', index) ∧ Clean b'.valueRows ∧
    index.lookup twoFields 1 9 = some none ∧
    ∃ mask, index.lookup twoFields 3 2 = some (some mask) ∧ bit mask 0 = true ∧ bit mask 1 = false := by
  have hc : fourRows.Strided := by
    refine ⟨?_, ?_, ?_, ?_, ?_, ?_⟩ <;> decide
  have ⟨b', index, h, _, clean, hl⟩ := @build_lookup _ twoFields 0 _ .new hc (by decide)
  have ⟨mask, hm, _, hbit⟩ := (hl 1 3 rfl 2).1 (by decide)
  refine ⟨b', index, h, clean, (hl 0 1 rfl 9).2 (by decide), mask, hm, (hbit 0).mpr (by decide), ?_⟩
  rw [Bool.eq_false_iff]
  exact fun ht => absurd ((hbit 1).mp ht) (by decide)

end FactBuilder
end Reuse

section Complete

def Program.Tests (p : Program) (row field id : Nat) : Prop :=
  row < p.opcodes.length ∧ p.fields.getD row 0 = field ∧
  match p.opcodes.getD row .invalid with
  | .equal | .notEqual => id = p.values.getD row 0
  | .in => id ∈ Region.read p.listValues (p.listStarts.getD row 0) (p.listCounts.getD row 0)
  | _ => False

variable {p : Program}

theorem symbol_of_factSpecContains {values : List Nat} {id : Nat}
    (h : factSpecContains p values id = true) :
    ∃ symbol, factIndexQuerySymbol p id = some symbol ∧ symbol ∈ values := by
  rw [factSpecContains] at h
  split at h
  case h_1 symbol hs =>
    obtain ⟨i, hi⟩ := Option.isSome_iff_exists.mp h
    exact ⟨symbol, hs, List.mem_of_getElem? (BinarySearch.search_sound hi)⟩
  case h_2 => cases h

theorem exists_symbol_of_tests (hq : validFactIndexQueries p = true)
    (hids : p.factIndexSpec.fieldIDs.Pairwise (· < ·)) {f row field id : Nat}
    (hf : p.factIndexSpec.fieldIDs[f]? = some field) (ht : p.Tests row field id) :
    ∃ symbol, factIndexQuerySymbol p id = some symbol ∧ symbol ∈ p.factIndexSpec.fieldValues f := by
  have ⟨hrow, hfield, ht⟩ := ht
  have hlt := (List.getElem?_eq_some_iff.mp hf).1
  have hsearch := (BinarySearch.search_eq_some_iff hids).mpr hf
  simp only [validFactIndexQueries, Bool.or_eq_true, beq_iff_eq, Nat.ne_of_gt (Nat.zero_lt_of_lt hlt),
    false_or, Bool.and_eq_true, List.all_eq_true (l := List.range _), List.mem_range] at hq
  have hq := hq.2 row hrow
  simp only [hfield, hsearch] at hq
  cases ho : p.opcodes.getD row .invalid
  case equal | notEqual =>
    simp only [ho] at hq ht
    exact symbol_of_factSpecContains (ht ▸ hq)
  case «in» =>
    simp only [ho, Bool.and_eq_true, List.all_eq_true] at hq ht
    exact symbol_of_factSpecContains (hq.2 id ht)
  all_goals
    simp only [ho] at ht

theorem FactIndex.isSome_lookup (index : FactIndex) (heap : Heap) (field v : Nat) :
    (index.lookup heap field v).isSome = (index.lookup heap field 0).isSome := by
  simp only [FactIndex.lookup, Option.bind_eq_bind]
  cases index.spec
  case none => rfl
  case some addr =>
    cases hs : BinarySearch.search (heap addr).factIndexSpec.fieldIDs field <;> simp [hs]

theorem FactIndex.Sound.lookup_ne_none {index : FactIndex} {heap : Heap} {addr : Nat} {batch : Batch}
    (h : index.Sound heap addr batch) (hids : (heap addr).factIndexSpec.fieldIDs.Pairwise (· < ·))
    {f field v : Nat} (hf : (heap addr).factIndexSpec.fieldIDs[f]? = some field)
    (hv : v ∈ (heap addr).factIndexSpec.fieldValues f) : index.lookup heap field v ≠ some none := by
  intro hl
  have hsome : (index.lookup heap field 0).isSome = true := by
    rw [← index.isSome_lookup heap field v, hl]
    rfl
  have ⟨f', _, hsearch, _, hmask⟩ := h field hsome
  rw [(BinarySearch.search_eq_some_iff hids).mpr hf, Option.some.injEq] at hsearch
  have ⟨mask, hm, _⟩ := hmask v (hsearch ▸ hv)
  rw [hl] at hm
  cases hm

variable {doc : Document} {fields : Schema} {symbols : Interner}

theorem lower_factIndexSpec (compiled : lower doc fields symbols = .ok p) :
    p.factIndexSpec.valid p.fieldIndex p.programSymbolCount = true ∧
      validFactIndexQueries p = true := by
  have ⟨h⟩ := Lineage.of_lower compiled
  have ⟨_, index⟩ := lowerIndexes_eq_ok h.low.indexes
  have facts := lowerFactIndexSpec_eq_ok index.facts
  refine ⟨?_, h.queries⟩
  rw [h.low.columns.factIndexSpec, h.low.columns.fieldIndex, h.low.columns.programSymbolCount]
  exact facts.valid

-- The specification of a compiled program is accepted and complete: no evaluator refuses it, and no
-- value that an instruction tests is looked up in vain.
theorem lower_facts_complete (compiled : lower doc fields symbols = .ok p) :
    p.factIndexSpec.valid p.fieldIndex p.programSymbolCount = true ∧
    validFactIndexQueries p = true ∧
    (∀ f field row id : Nat, p.factIndexSpec.fieldIDs[f]? = some field → p.Tests row field id →
      ∃ symbol, factIndexQuerySymbol p id = some symbol ∧ symbol ∈ p.factIndexSpec.fieldValues f) ∧
    ∀ k heap addr, heap addr = p → ∀ cs batch mode, validExecutionBatchColumns p batch →
      batch.rows ≤ maxUint32 →
      ∃ e', (Executor.calls k heap cs).buildFactIndex heap addr batch mode = (e', .ok ()) ∧
        ∀ f field row id symbol : Nat, p.factIndexSpec.fieldIDs[f]? = some field → p.Tests row field id →
          factIndexQuerySymbol p id = some symbol →
          e'.factIndex.lookup heap field symbol ≠ some none := by
  obtain ⟨valid, queries⟩ := lower_factIndexSpec compiled
  have hids : p.factIndexSpec.fieldIDs.Pairwise (· < ·) := by
    simp only [FactSpec.valid, Bool.and_eq_true] at valid
    exact (FactSpec.shaped_of_validShape valid.1.2).ids
  refine ⟨valid, queries, fun f field row id hf ht => exists_symbol_of_tests queries hids hf ht, ?_⟩
  rintro k heap addr rfl cs batch mode hcolumns hrows
  obtain ⟨builder, index, he, _, sound⟩ := Executor.Cached.buildFactIndex_ok
    (Executor.cached_calls k heap cs).clean valid hcolumns hrows mode
  refine ⟨_, he, fun f field row id symbol hf ht hs => ?_⟩
  obtain ⟨symbol', hs', hm⟩ := exists_symbol_of_tests queries hids hf ht
  rw [hs, Option.some.injEq] at hs'
  exact sound.lookup_ne_none hids hf (hs' ▸ hm)

-- A test of a text for one of all the printable characters.
def printablePolicy : Document :=
  { flagPolicy [.compare] [0] [] [] [] [] 1 with
    compareOps := [.in]
    compareListCounts := [96]
    listValueIDs := List.range' 4 96
    valueKinds := List.replicate 99 .symbol
    valueRefs := List.range 99
    symbolStarts := [0, 1, 2] ++ List.range' 8 96
    symbolLengths := [1, 1, 6] ++ List.replicate 96 1
    symbolBytes := bytes "p1permit" ++ (List.range' 32 96).map (BitVec.ofNat 8) }

def textSchema : Schema :=
  { flagSchema with kinds := [.symbol], length_kinds := rfl, kinds_valid := by decide }

def oneText : Batch :=
  { Scheduler.alternating 1 with symbolValues := [2], booleanValues := [], symbolValues_le := by decide }

-- The program tests its field for its first value among others, which is the symbol of the request.
def TextIndexed (p : Program) : Prop :=
  p.factIndexSpec.fieldIDs = [1] ∧ (p.factIndexSpec.fieldValues 0).length = 96 ∧
  p.opcodes = [.in] ∧ p.fields = [1] ∧
  1 ∈ Region.read p.listValues (p.listStarts.getD 0 0) (p.listCounts.getD 0 0) ∧
  validExecutionBatchColumns p oneText ∧
  (Executor.zero.buildFactIndex (fun _ => p) 0 oneText .index).1.factIndex.lookup (fun _ => p) 1 2 =
    some (some [1#64])

instance : Decidable (TextIndexed p) :=
  inferInstanceAs (Decidable (_ ∧ _))

theorem exists_textIndexed :
    ∃ p, lower printablePolicy textSchema flagSymbols = .ok p ∧ TextIndexed p := by
  have h : (lower printablePolicy textSchema flagSymbols).toOption.any (decide <| TextIndexed ·) := by
    decide +kernel
  cases hl : lower printablePolicy textSchema flagSymbols
  case error =>
    rw [hl] at h
    cases h
  case ok p =>
    rw [hl] at h
    exact ⟨p, rfl, of_decide_eq_true h⟩

theorem lower_facts_complete_printable : ∃ p symbol e',
    lower printablePolicy textSchema flagSymbols = .ok p ∧ p.factIndexSpec.fieldIDs[0]? = some 1 ∧
    (p.factIndexSpec.fieldValues 0).length = 96 ∧ p.Tests 0 1 1 ∧
    factIndexQuerySymbol p 1 = some symbol ∧ symbol ∈ p.factIndexSpec.fieldValues 0 ∧
    (Executor.calls .portable (fun _ => p) []).buildFactIndex (fun _ => p) 0 oneText .index =
      (e', .ok ()) ∧
    e'.factIndex.lookup (fun _ => p) 1 symbol ≠ some none ∧
    e'.factIndex.lookup (fun _ => p) 1 2 = some (some [1#64]) := by
  obtain ⟨p, hl, hfields, hvalues, hopcodes, hfield, hm, hcolumns, hlookup⟩ := exists_textIndexed
  have htests : p.Tests 0 1 1 := by
    simp only [Program.Tests, hopcodes, hfield]
    exact ⟨Nat.one_pos, rfl, hm⟩
  have hf : p.factIndexSpec.fieldIDs[0]? = some 1 := by rw [hfields]; rfl
  have ⟨_, _, complete, hbuild⟩ := lower_facts_complete hl
  have ⟨symbol, hs, hv⟩ := complete 0 1 0 1 hf htests
  have ⟨e', he, hne⟩ := hbuild .portable (fun _ => p) 0 rfl [] oneText .index hcolumns (by decide)
  have hzero : Executor.zero.buildFactIndex (fun _ => p) 0 oneText .index = (e', .ok ()) := he
  rw [hzero] at hlookup
  exact ⟨p, symbol, e', hl, hf, hvalues, htests, hs, hv, he, hne 0 1 0 1 symbol hf htests hs, hlookup⟩

end Complete
end NornRune
