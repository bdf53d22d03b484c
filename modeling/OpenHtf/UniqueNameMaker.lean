import OpenHtf.Lib.IndexedName
import Mathlib.Data.List.Nodup
import Mathlib.Data.List.Perm.Subperm
import Mathlib.Logic.Function.Basic

/-!
# Making names unique

`UniqueNameMaker`: a name that was announced more than once gets an index when it
is asked for.  The names that a maker gives out over the phases are pairwise
distinct unless one with an index is a name that occurs only once.
-/

set_option autoImplicit false

namespace OpenHtf.UniqueNames

abbrev Name := List Char

/-- The counts are those of the names in `allNames`. -/
structure UniqueNameMaker where
  allNames : List Name
  seen : Name → ℕ := fun _ ↦ 0

namespace UniqueNameMaker

/-- `none` is the failure of its assertion. -/
def makeUnique (name : Name) (maker : UniqueNameMaker) : Option (Name × UniqueNameMaker) :=
  match maker.allNames.count name with
  | 0 => none
  | 1 => some (name, maker)
  | _ =>
    some (withIndex name (maker.seen name),
      { maker with seen := Function.update maker.seen name (maker.seen name + 1) })

/-! ## What the maker does with the names of a phase -/

/-- The name gets an index. -/
def Repeated (maker : UniqueNameMaker) (name : Name) : Prop := 1 < maker.allNames.count name

instance (maker : UniqueNameMaker) (name : Name) : Decidable (maker.Repeated name) :=
  inferInstanceAs (Decidable (1 < maker.allNames.count name))

/-- What becomes of a name. -/
def newName (maker : UniqueNameMaker) (name : Name) : Name :=
  if maker.Repeated name then withIndex name (maker.seen name) else name

/-- The maker after it was asked for some names, each of them once. -/
def sees (maker : UniqueNameMaker) (names : List Name) : UniqueNameMaker :=
  { maker with
    seen := fun name ↦
      if name ∈ names ∧ maker.Repeated name then maker.seen name + 1 else maker.seen name }

variable {maker : UniqueNameMaker} {name : Name} {names : List Name}

@[simp] theorem repeated_sees : (maker.sees names).Repeated name ↔ maker.Repeated name := Iff.rfl

@[simp] theorem allNames_sees : (maker.sees names).allNames = maker.allNames := rfl

@[simp] theorem sees_nil : maker.sees [] = maker := by simp [sees]

theorem sees_congr {names' : List Name} (h : ∀ name, name ∈ names ↔ name ∈ names') :
    maker.sees names = maker.sees names' := by
  simp only [sees, h]

theorem newName_of_repeated (h : maker.Repeated name) :
    maker.newName name = withIndex name (maker.seen name) := if_pos h

theorem newName_of_not_repeated (h : ¬maker.Repeated name) : maker.newName name = name := if_neg h

theorem seen_sees_of_not_mem (h : name ∉ names) : (maker.sees names).seen name = maker.seen name := by
  simp [sees, h]

theorem seen_sees_of_mem (hmem : name ∈ names) (h : maker.Repeated name) :
    (maker.sees names).seen name = maker.seen name + 1 := by
  simp [sees, hmem, h]

theorem seen_le_sees : maker.seen name ≤ (maker.sees names).seen name := by
  unfold sees
  dsimp only
  split
  · exact Nat.le_succ _
  · exact Nat.le_refl _

theorem newName_sees_of_not_mem (h : name ∉ names) : (maker.sees names).newName name = maker.newName name := by
  simp only [newName, repeated_sees, seen_sees_of_not_mem h]

/-- One name after the other. -/
theorem sees_sees (h : name ∉ names) : (maker.sees [name]).sees names = maker.sees (name :: names) := by
  have hseen : ∀ n, ((maker.sees [name]).sees names).seen n = (maker.sees (name :: names)).seen n := by
    intro n
    by_cases hn : n = name
    · subst hn
      rw [seen_sees_of_not_mem h]
      simp [sees]
    · simp [sees, hn, Repeated]
  exact congrArg (UniqueNameMaker.mk maker.allNames) (funext hseen)

theorem makeUnique_eq (h : name ∈ maker.allNames) :
    maker.makeUnique name = some (maker.newName name, maker.sees [name]) := by
  have hpos := List.count_pos_iff.mpr h
  rcases hcount : maker.allNames.count name with _ | _ | k
  · omega
  · have hone : ¬maker.Repeated name := by rw [Repeated, hcount]; omega
    have hsame : maker.sees [name] = maker := by
      refine congrArg (UniqueNameMaker.mk maker.allNames) (funext fun n ↦ if_neg ?_)
      rintro ⟨hn, hrep⟩
      exact hone (List.mem_singleton.mp hn ▸ hrep)
    simp only [makeUnique, hcount]
    rw [newName_of_not_repeated hone, hsame]
  · have hrep : maker.Repeated name := by rw [Repeated, hcount]; omega
    simp only [makeUnique, hcount]
    rw [newName_of_repeated hrep]
    refine congrArg (fun seen ↦ some (_, UniqueNameMaker.mk maker.allNames seen)) (funext fun n ↦ ?_)
    by_cases hn : n = name
    · subst hn
      simp [hrep]
    · simp [hn]

/-! ## The names of all phases -/

/-- What becomes of the names of the phases. -/
def newNames : UniqueNameMaker → List (List Name) → List (List Name)
  | _, [] => []
  | maker, names :: rest => names.map maker.newName :: newNames (maker.sees names) rest

/-- No name with an index is the name of something else in its phase. -/
def FreshIn (maker : UniqueNameMaker) (names : List Name) : Prop :=
  ∀ name ∈ names, maker.Repeated name → maker.newName name ∉ names

/-- A name with an index is not one of `all` that gets none. -/
def FreshAmong (all : List (List Name)) (maker : UniqueNameMaker) (names : List Name) : Prop :=
  ∀ name ∈ names, maker.Repeated name → ∀ others ∈ all, maker.newName name ∈ others →
    maker.Repeated (maker.newName name)

/-- `P` holds of the names of each phase and the maker that is asked for them. -/
def EachPhase (P : UniqueNameMaker → List Name → Prop) : UniqueNameMaker → List (List Name) → Prop
  | _, [] => True
  | maker, names :: rest => P maker names ∧ EachPhase P (maker.sees names) rest

theorem newName_injOn (hfresh : maker.FreshIn names) {a b : Name} (ha : a ∈ names) (hb : b ∈ names)
    (h : maker.newName a = maker.newName b) : a = b := by
  by_cases hrepa : maker.Repeated a
  · by_cases hrepb : maker.Repeated b
    · rw [newName_of_repeated hrepa, newName_of_repeated hrepb] at h
      exact (withIndex_inj.mp h).1
    · rw [newName_of_not_repeated hrepb] at h
      exact absurd (h ▸ hb) (hfresh a ha hrepa)
  · by_cases hrepb : maker.Repeated b
    · rw [newName_of_not_repeated hrepa] at h
      exact absurd (h ▸ ha) (hfresh b hb hrepb)
    · rwa [newName_of_not_repeated hrepa, newName_of_not_repeated hrepb] at h

theorem nodup_map_newName (hnodup : names.Nodup) (hfresh : maker.FreshIn names) :
    (names.map maker.newName).Nodup :=
  List.Nodup.map_on (fun _ ha _ hb h ↦ newName_injOn hfresh ha hb h) hnodup

section Phases

variable {all rest : List (List Name)}

/-- A name that gets no index stays among the names of its phase. -/
theorem mem_newNames_of_not_repeated (hmem : names ∈ rest) (hname : name ∈ names)
    (h : ¬maker.Repeated name) : name ∈ (maker.newNames rest).flatten := by
  induction rest generalizing maker with
  | nil => cases hmem
  | cons first rest ih =>
      rw [newNames, List.flatten_cons, List.mem_append]
      rcases List.mem_cons.mp hmem with rfl | hmem
      · exact .inl (List.mem_map.mpr ⟨name, hname, newName_of_not_repeated h⟩)
      · exact .inr (ih hmem h)

/-- Where a name that is given out comes from. -/
theorem origin_of_mem_newNames (hall : ∀ names ∈ rest, names ∈ all)
    (hfresh : EachPhase (FreshAmong all) maker rest) {g : Name} (h : g ∈ (maker.newNames rest).flatten) :
    (¬maker.Repeated g ∧ g ∈ rest.flatten) ∨
      (∃ n k, g = withIndex n k ∧ maker.seen n ≤ k) ∧
        ∀ others ∈ all, g ∈ others → maker.Repeated g := by
  induction rest generalizing maker with
  | nil => cases h
  | cons first rest ih =>
      rw [newNames, List.flatten_cons, List.mem_append] at h
      rcases h with h | h
      · obtain ⟨n, hn, rfl⟩ := List.mem_map.mp h
        by_cases hrep : maker.Repeated n
        · refine .inr ⟨⟨n, _, newName_of_repeated hrep, Nat.le_refl _⟩, ?_⟩
          exact hfresh.1 n hn hrep
        · rw [newName_of_not_repeated hrep]
          exact .inl ⟨hrep, by simp [hn]⟩
      · rcases ih (fun names hnames ↦ hall names (by simp [hnames])) hfresh.2 h with ⟨hrep, hmem⟩ | h
        · exact .inl ⟨hrep, List.mem_append.mpr (.inr hmem)⟩
        · obtain ⟨⟨n, k, rfl, hk⟩, hothers⟩ := h
          exact .inr ⟨⟨n, k, rfl, seen_le_sees.trans hk⟩, hothers⟩

/-- A name that is given out by a later phase is not given out by this one. -/
theorem newName_not_mem (hall : ∀ others ∈ names :: rest, others ∈ all)
    (hcounted : (names :: rest).flatten.Subperm maker.allNames)
    (hfresh : EachPhase (FreshAmong all) maker (names :: rest)) (hname : name ∈ names) :
    maker.newName name ∉ ((maker.sees names).newNames rest).flatten := by
  intro hmem
  have hrest : ∀ others ∈ rest, others ∈ all := fun others h ↦ hall others (by simp [h])
  by_cases hrep : maker.Repeated name
  · rcases origin_of_mem_newNames hrest hfresh.2 hmem with ⟨hsingle, hlater⟩ | ⟨⟨n, k, hk, hle⟩, -⟩
    · obtain ⟨others, hothers, hg⟩ := List.mem_flatten.mp hlater
      exact hsingle (hfresh.1 name hname hrep others (hrest others hothers) hg)
    · rw [newName_of_repeated hrep, withIndex_inj] at hk
      obtain ⟨rfl, rfl⟩ := hk
      rw [seen_sees_of_mem hname hrep] at hle
      omega
  · rw [newName_of_not_repeated hrep] at hmem
    rcases origin_of_mem_newNames hrest hfresh.2 hmem with ⟨-, hlater⟩ | ⟨-, hothers⟩
    · -- The name occurs in two phases.
      have htwice := hcounted.count_le name
      rw [List.flatten_cons, List.count_append] at htwice
      have hhere := List.count_pos_iff.mpr hname
      have hthere := List.count_pos_iff.mpr hlater
      exact hrep (by rw [Repeated]; omega)
    · exact hrep (hothers names (hall names (by simp)) hname)

theorem nodup_newNames (hnodup : ∀ names ∈ rest, names.Nodup) (hall : ∀ names ∈ rest, names ∈ all)
    (hcounted : rest.flatten.Subperm maker.allNames) (hfreshIn : EachPhase FreshIn maker rest)
    (hfresh : EachPhase (FreshAmong all) maker rest) : (maker.newNames rest).flatten.Nodup := by
  induction rest generalizing maker with
  | nil => exact List.nodup_nil
  | cons names rest ih =>
      rw [newNames, List.flatten_cons, List.nodup_append']
      refine ⟨nodup_map_newName (hnodup names (by simp)) hfreshIn.1, ?_, ?_⟩
      · refine ih (fun names h ↦ hnodup names (by simp [h])) (fun names h ↦ hall names (by simp [h])) ?_
          hfreshIn.2 hfresh.2
        exact (List.sublist_append_right names rest.flatten).subperm.trans hcounted
      · intro g hg
        obtain ⟨n, hn, rfl⟩ := List.mem_map.mp hg
        exact newName_not_mem hall hcounted hfresh hn

/-- If the names are pairwise distinct, then no name with an index is one without.
`before` are the names given out before. -/
theorem freshAmong_of_nodup {before : List Name} (hfreshIn : EachPhase FreshIn maker rest)
    (hall : ∀ others ∈ all, others ∈ rest ∨ ∀ g ∈ others, ¬maker.Repeated g → g ∈ before)
    (hnodup : (before ++ (maker.newNames rest).flatten).Nodup) : EachPhase (FreshAmong all) maker rest := by
  induction rest generalizing maker before with
  | nil => trivial
  | cons names rest ih =>
      rw [newNames, List.flatten_cons, ← List.append_assoc] at hnodup
      refine ⟨?_, ih hfreshIn.2 ?_ hnodup⟩
      · intro n hn hrep others hothers hg
        by_contra hsingle
        have hgiven : maker.newName n ∈ names.map maker.newName := List.mem_map_of_mem hn
        rw [List.append_assoc, List.nodup_append', List.nodup_append'] at hnodup
        obtain ⟨-, ⟨-, -, hlater⟩, hbefore⟩ := hnodup
        rcases hall others hothers with hothers | hothers
        · rcases List.mem_cons.mp hothers with rfl | hothers
          · exact hfreshIn.1 n hn hrep hg
          · exact hlater hgiven (mem_newNames_of_not_repeated hothers hg hsingle)
        · exact hbefore (hothers _ hg hsingle) (List.mem_append.mpr (.inl hgiven))
      · intro others hothers
        rcases hall others hothers with hothers | hothers
        · rcases List.mem_cons.mp hothers with rfl | hothers
          · refine .inr fun g hg hsingle ↦ List.mem_append.mpr (.inr (List.mem_map.mpr ⟨g, hg, ?_⟩))
            exact newName_of_not_repeated hsingle
          · exact .inl hothers
        · exact .inr fun g hg hsingle ↦ List.mem_append.mpr (.inl (hothers g hg hsingle))

/-- The names that are given out are pairwise distinct exactly if no name with an
index is one without. -/
theorem nodup_newNames_iff (hnodup : ∀ names ∈ all, names.Nodup)
    (hcounted : all.flatten.Subperm maker.allNames) (hfreshIn : EachPhase FreshIn maker all) :
    (maker.newNames all).flatten.Nodup ↔ EachPhase (FreshAmong all) maker all :=
  ⟨fun h ↦ @freshAmong_of_nodup _ _ _ [] hfreshIn (fun _ hothers ↦ .inl hothers) h,
    fun h ↦ nodup_newNames hnodup (fun _ hnames ↦ hnames) hcounted hfreshIn h⟩

end Phases

end UniqueNameMaker

end OpenHtf.UniqueNames
