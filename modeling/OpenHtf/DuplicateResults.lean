import OpenHtf.Lib.Grouping
import OpenHtf.PhaseNode
import Mathlib.Algebra.GroupWithZero.Nat
import Mathlib.Data.List.Dedup
import Mathlib.Data.List.Sort

/-!
# Duplicate diagnosis results

`phase_descriptor.check_for_duplicate_results`.  The `result_type` of a diagnoser
is a number that stands for a `DiagResultEnum` class.
-/

set_option autoImplicit false

namespace OpenHtf.DuplicateResults

/-! ## The check -/

/-- A `DiagResultEnum`: its `__repr__`, and its `__members__`, that is, its names
with the values that they stand for. -/
structure DiagResultEnum where
  repr : String
  members : List (String × String)
  nodup_names : (members.map Prod.fst).Nodup

/-- In which order a loop takes the elements of a set. -/
structure SetOrder where
  order : List ℕ → List ℕ
  perm : ∀ s, (order s).Perm s

section Model

variable (enums : ℕ → DiagResultEnum) (setOrder : SetOrder) (phases : List PhaseDescriptor)
  (testDiagnosers : List Diagnoser)

/-- The result types of all diagnosers. -/
def resultTypes : List ℕ :=
  (phases.flatMap PhaseDescriptor.diagnosers ++ testDiagnosers).map Diagnoser.resultType

def allResultEnums : List ℕ := (resultTypes phases testDiagnosers).dedup

/-- The entries of the classes, each with the class. -/
def entries (classes : List ℕ) : List (String × ℕ) :=
  classes.flatMap fun enumCls ↦ (enums enumCls).members.map fun entry ↦ (entry.2, enumCls)

def valuesToEnums : List (String × List ℕ) :=
  groupPairs (entries enums (setOrder.order (allResultEnums phases testDiagnosers)))

/-- The items that count as duplicates, in the order of their values. -/
def duplicateItems : List (String × List ℕ) :=
  ((valuesToEnums enums setOrder phases testDiagnosers).insertionSort fun a b ↦ a.1 ≤ b.1).filter
    fun item ↦ 1 < item.2.length

/-- The `repr` of a list of classes. -/
def reprList (classes : List ℕ) : String :=
  "[" ++ ", ".intercalate (classes.map fun enumCls ↦ (enums enumCls).repr) ++ "]"

def duplicateText (item : String × List ℕ) : String :=
  "Value \"" ++ item.1 ++ "\" defined by " ++ reprList enums item.2

/-- `DuplicateResultError`, with its text. -/
structure DuplicateResultError where
  text : String

def checkForDuplicateResults : Except DuplicateResultError Unit :=
  match (duplicateItems enums setOrder phases testDiagnosers).map (duplicateText enums) with
  | [] => .ok ()
  | duplicates => .error ⟨"Duplicate DiagResultEnum values: " ++ "\n".intercalate duplicates⟩

/-! ## Clashes -/

/-- The class defines the value. -/
def Defines (enumCls : ℕ) (value : String) : Prop := value ∈ (enums enumCls).members.map Prod.snd

/-- Two different result types define the value. -/
def Clashes (value : String) : Prop :=
  ∃ a ∈ resultTypes phases testDiagnosers, ∃ b ∈ resultTypes phases testDiagnosers,
    a ≠ b ∧ Defines enums a value ∧ Defines enums b value

/-- `DuplicateResultError` is raised just when there is a clash, and nothing else
counts as a duplicate. -/
structure DetectsClashes : Prop where
  raises_iff : (∃ e, checkForDuplicateResults enums setOrder phases testDiagnosers = .error e) ↔
    ∃ value, Clashes enums phases testDiagnosers value
  counts_iff : ∀ value,
    value ∈ (duplicateItems enums setOrder phases testDiagnosers).map Prod.fst ↔
      Clashes enums phases testDiagnosers value

/-- The value has two names in the class. -/
def Aliased (enumCls : ℕ) (value : String) : Prop :=
  1 < ((enums enumCls).members.map Prod.snd).count value

instance (enumCls : ℕ) (value : String) : Decidable (Aliased enums enumCls value) :=
  inferInstanceAs (Decidable (1 < _))

/-- A value that has two names in a result type is defined by another one as well. -/
def AliasesClash : Prop :=
  ∀ a ∈ resultTypes phases testDiagnosers, ∀ value, Aliased enums a value →
    ∃ b ∈ resultTypes phases testDiagnosers, b ≠ a ∧ Defines enums b value

end Model

/-! ## What counts as a duplicate -/

section Lemmas

variable {enums : ℕ → DiagResultEnum} {setOrder : SetOrder} {phases : List PhaseDescriptor}
  {testDiagnosers : List Diagnoser}

theorem defines_iff {enumCls : ℕ} {value : String} :
    Defines enums enumCls value ↔ 0 < ((enums enumCls).members.map Prod.snd).count value :=
  List.count_pos_iff.symm

/-- A value has an entry for each of its names. -/
theorem length_valuesOf_entries (classes : List ℕ) (value : String) :
    (valuesOf value (entries enums classes)).length =
      (classes.map fun enumCls ↦ ((enums enumCls).members.map Prod.snd).count value).sum := by
  induction classes with
  | nil => rfl
  | cons enumCls classes ih =>
      have hclass : (valuesOf value ((enums enumCls).members.map fun entry ↦ (entry.2, enumCls))).length =
          ((enums enumCls).members.map Prod.snd).count value := by
        rw [valuesOf, List.length_map, List.filter_map, List.length_map, List.count, List.countP_map,
          List.countP_eq_length_filter]
        rfl
      rw [List.map_cons, List.sum_cons, ← ih, ← hclass]
      simp [entries, valuesOf]

theorem sum_pos_iff {α : Type} {f : α → ℕ} {l : List α} : 0 < (l.map f).sum ↔ ∃ a ∈ l, 0 < f a := by
  induction l with
  | nil => simp
  | cons a l ih =>
      rw [List.map_cons, List.sum_cons, List.exists_mem_cons_iff, ← ih]
      omega

/-- A sum exceeds one if a summand does, or two different ones are positive. -/
theorem one_lt_sum_iff {α : Type} {f : α → ℕ} {l : List α} (hnodup : l.Nodup) :
    1 < (l.map f).sum ↔
      (∃ a ∈ l, 1 < f a) ∨ ∃ a ∈ l, ∃ b ∈ l, a ≠ b ∧ 0 < f a ∧ 0 < f b := by
  constructor
  · intro h
    induction l with
    | nil => simp at h
    | cons a l ih =>
        rw [List.map_cons, List.sum_cons] at h
        rw [List.nodup_cons] at hnodup
        by_cases hone : 1 < f a
        · exact .inl ⟨a, List.mem_cons_self, hone⟩
        by_cases hrest : 1 < (l.map f).sum
        · obtain ⟨b, hb, hfb⟩ | ⟨b, hb, c, hc, hne, hfb, hfc⟩ := ih hnodup.2 hrest
          · exact .inl ⟨b, List.mem_cons_of_mem a hb, hfb⟩
          · exact .inr ⟨b, List.mem_cons_of_mem a hb, c, List.mem_cons_of_mem a hc, hne, hfb, hfc⟩
        -- the head and the rest contribute one each
        obtain ⟨b, hb, hfb⟩ := sum_pos_iff.mp (by omega : 0 < (l.map f).sum)
        refine .inr ⟨a, List.mem_cons_self, b, List.mem_cons_of_mem a hb, ?_, by omega, hfb⟩
        rintro rfl
        exact hnodup.1 hb
  · rintro (⟨a, ha, hfa⟩ | ⟨a, ha, b, hb, hne, hfa, hfb⟩)
    · obtain ⟨l₁, l₂, rfl⟩ := List.append_of_mem ha
      simp only [List.map_append, List.map_cons, List.sum_append, List.sum_cons]
      omega
    · obtain ⟨l₁, l₂, rfl⟩ := List.append_of_mem ha
      have hb' : b ∈ l₁ ++ l₂ := by
        simpa [Ne.symm hne] using hb
      have hpos := sum_pos_iff.mpr ⟨b, hb', hfb⟩
      simp only [List.map_append, List.map_cons, List.sum_append, List.sum_cons] at hpos ⊢
      omega

variable (enums setOrder phases testDiagnosers)

/-- What counts as a duplicate: a value with two names in a class, or in two classes. -/
theorem mem_duplicateItems_iff (value : String) :
    value ∈ (duplicateItems enums setOrder phases testDiagnosers).map Prod.fst ↔
      (∃ a ∈ resultTypes phases testDiagnosers, Aliased enums a value) ∨
        Clashes enums phases testDiagnosers value := by
  set classes := setOrder.order (allResultEnums phases testDiagnosers) with hclasses
  have hperm : classes.Perm (resultTypes phases testDiagnosers).dedup := setOrder.perm _
  have hnodup : classes.Nodup := hperm.nodup_iff.mpr (List.nodup_dedup _)
  have hmem : ∀ a, a ∈ classes ↔ a ∈ resultTypes phases testDiagnosers := fun a ↦
    hperm.mem_iff.trans List.mem_dedup
  have hlength : value ∈ (duplicateItems enums setOrder phases testDiagnosers).map Prod.fst ↔
      1 < (valuesOf value (entries enums classes)).length := by
    simp only [duplicateItems, valuesToEnums, List.mem_map, List.mem_filter, List.mem_insertionSort,
      decide_eq_true_eq]
    constructor
    · rintro ⟨⟨v, vs⟩, ⟨hitem, hlt⟩, rfl⟩
      have hne : vs ≠ [] := List.length_pos_iff.mp (Nat.zero_lt_of_lt hlt)
      rwa [← (mem_groupPairs_iff hne).mp hitem]
    · intro hlt
      have hne := List.length_pos_iff.mp (Nat.zero_lt_of_lt hlt)
      exact ⟨(value, _), ⟨(mem_groupPairs_iff hne).mpr rfl, hlt⟩, rfl⟩
  rw [hlength, length_valuesOf_entries, one_lt_sum_iff hnodup]
  simp only [hmem, Aliased, Clashes, defines_iff]

theorem raises_iff : (∃ e, checkForDuplicateResults enums setOrder phases testDiagnosers = .error e) ↔
    ∃ value, value ∈ (duplicateItems enums setOrder phases testDiagnosers).map Prod.fst := by
  rw [checkForDuplicateResults]
  cases duplicateItems enums setOrder phases testDiagnosers with
  | nil => simp
  | cons item items => simp

/-! ## The result -/

/-- The check detects the clashes if and only if every value that has two names in
a result type is defined by another one as well. -/
theorem detectsClashes_iff :
    DetectsClashes enums setOrder phases testDiagnosers ↔ AliasesClash enums phases testDiagnosers := by
  have hcounts := mem_duplicateItems_iff enums setOrder phases testDiagnosers
  constructor
  · intro hdetects a ha value haliased
    obtain ⟨b, hb, c, hc, hne, hdefb, hdefc⟩ :=
      (hdetects.counts_iff value).mp ((hcounts value).mpr (.inl ⟨a, ha, haliased⟩))
    by_cases hba : b = a
    · exact ⟨c, hc, fun hca ↦ hne (hba.trans hca.symm), hdefc⟩
    · exact ⟨b, hb, hba, hdefb⟩
  · intro halias
    have hclash : ∀ value, value ∈ (duplicateItems enums setOrder phases testDiagnosers).map Prod.fst ↔
        Clashes enums phases testDiagnosers value := by
      intro value
      rw [hcounts]
      constructor
      · rintro (⟨a, ha, haliased⟩ | hclash)
        · obtain ⟨b, hb, hne, hdefines⟩ := halias a ha value haliased
          exact ⟨b, hb, a, ha, hne, hdefines, defines_iff.mpr (Nat.zero_lt_of_lt haliased)⟩
        · exact hclash
      · exact .inr
    refine ⟨?_, hclash⟩
    rw [raises_iff]
    exact exists_congr hclash

end Lemmas

/-- A class with a second name for its value. -/
def aliasing : DiagResultEnum where
  repr := "<enum 'Result'>"
  members := [("BROKEN", "broken"), ("DEFECT", "broken")]
  nodup_names := by decide

/-- One diagnoser whose result type has an alias is enough for the error. -/
theorem not_detectsClashes_aliasing : ¬DetectsClashes (fun _ ↦ aliasing) ⟨id, fun _ ↦ .refl _⟩ []
    [{ name := "diagnoser", resultType := 0, run := fun _ ↦ .nothing }] := by
  intro hdetects
  have hcounts := (mem_duplicateItems_iff (fun _ ↦ aliasing) ⟨id, fun _ ↦ .refl _⟩ []
    [{ name := "diagnoser", resultType := 0, run := fun _ ↦ .nothing }] "broken").mpr
      (.inl ⟨0, List.mem_singleton_self 0, by decide⟩)
  obtain ⟨a, ha, b, hb, hne, -⟩ := (hdetects.counts_iff "broken").mp hcounts
  have ha := List.mem_singleton.mp ha
  have hb := List.mem_singleton.mp hb
  exact hne (ha.trans hb.symm)

end OpenHtf.DuplicateResults
