import Mathlib.Data.Finset.Card
import Mathlib.Data.Finset.Image
import Mathlib.Logic.Function.Iterate

/-!
# The first free name

A name that is in use is changed, in the same way each time, until it is free.
Which names are taken in the end does not depend on the order in which they are
asked for: a name is taken exactly if some names that lead up to it are asked
for more often than there are places before it.
-/

set_option autoImplicit false

universe u

/-- How one goes on from a name that is in use. -/
structure Probing (α : Type u) where
  next : α → α
  size : α → ℕ
  size_lt : ∀ x, size x < size (next x)
  injective : Function.Injective next

namespace Probing

section Names

variable {α : Type u} {p : Probing α} {used : Finset α} {x y : α}

/-- From the name that is asked for, all names are in use up to the one that is given. -/
def Lands (p : Probing α) (used : Finset α) (x y : α) : Prop :=
  ∃ k, p.next^[k] x = y ∧ ∀ j ≤ k, p.next^[j] x ∈ used

theorem Lands.mono {used' : Finset α} (h : p.Lands used x y) (hsub : used ⊆ used') : p.Lands used' x y := by
  obtain ⟨k, hk, hall⟩ := h
  exact ⟨k, hk, fun j hj ↦ hsub (hall j hj)⟩

theorem size_add_le (x : α) (k : ℕ) : p.size x + k ≤ p.size (p.next^[k] x) := by
  induction k with
  | zero => exact Nat.le_refl _
  | succ k ih =>
      have hlt := p.size_lt (p.next^[k] x)
      rw [Function.iterate_succ_apply']
      omega

theorem iterate_inj {j k : ℕ} (h : p.next^[j] x = p.next^[k] x) : j = k := by
  wlog hle : j ≤ k generalizing j k
  · exact (this h.symm (by omega)).symm
  obtain ⟨d, rfl⟩ := Nat.exists_eq_add_of_le hle
  rw [Function.iterate_add_apply] at h
  have hback : x = p.next^[d] x := p.injective.iterate j h
  have hsize := size_add_le (p := p) x d
  rw [← hback] at hsize
  omega

/-- The names in use that lead up to one of them, from the first one on. -/
theorem exists_run (hy : y ∈ used) :
    ∃ x m, p.next^[m] x = y ∧ (∀ j ≤ m, p.next^[j] x ∈ used) ∧ ∀ z, p.next z = x → z ∉ used := by
  induction hn : p.size y using Nat.strong_induction_on generalizing y with
  | _ n ih =>
      by_cases hprev : ∃ z, p.next z = y ∧ z ∈ used
      · obtain ⟨z, rfl, hz⟩ := hprev
        obtain ⟨x, m, rfl, hall, hfirst⟩ := ih (p.size z) (hn ▸ p.size_lt z) hz rfl
        refine ⟨x, m + 1, Function.iterate_succ_apply' _ _ _, fun j hj ↦ ?_, hfirst⟩
        rcases Nat.le_succ_iff.mp hj with hj | rfl
        · exact hall j hj
        · rwa [Nat.succ_eq_add_one, Function.iterate_succ_apply']
      · refine ⟨y, 0, rfl, fun j hj ↦ ?_, fun z hz hused ↦ hprev ⟨z, hz, hused⟩⟩
        obtain rfl := Nat.le_zero.mp hj
        exact hy

theorem countP_le_of_forall₂ {r : α → α → Prop} {s t : α → Bool} {xs ys : List α} (h : List.Forall₂ r xs ys)
    (himp : ∀ x y, r x y → s x → t y) : xs.countP s ≤ ys.countP t := by
  induction h with
  | nil => exact Nat.le_refl _
  | cons hr _ ih =>
      rw [List.countP_cons, List.countP_cons]
      split
      · rw [if_pos (himp _ _ hr ‹_›)]
        omega
      · omega

end Names

variable {α : Type u} [DecidableEq α]

def firstFree (p : Probing α) (used : Finset α) (x : α) : α :=
  if x ∈ used then firstFree p used (p.next x) else x
termination_by (used.filter fun y ↦ p.size x ≤ p.size y).card
decreasing_by
  rename_i hx
  refine Finset.card_lt_card ((Finset.ssubset_iff_of_subset ?_).mpr ⟨x, by simp [hx], ?_⟩)
  · intro y hy
    have hlt := p.size_lt x
    rw [Finset.mem_filter] at hy ⊢
    exact ⟨hy.1, by omega⟩
  · simpa using fun _ : x ∈ used ↦ p.size_lt x

/-- The names that are given out when these are asked for one after the other. -/
def place (p : Probing α) (used : Finset α) : List α → List α
  | [] => []
  | x :: xs => p.firstFree used x :: place p (insert (p.firstFree used x) used) xs

/-- The first `n` names from `x` on. -/
def window (p : Probing α) (x : α) (n : ℕ) : Finset α := (Finset.range n).image fun k ↦ p.next^[k] x

/-- More names are asked for among those that lead up to `y` than have room before it. -/
def Crowded (p : Probing α) (xs : List α) (y : α) : Prop :=
  ∃ x m, p.next^[m] x = y ∧ m < xs.countP (· ∈ p.window x (m + 1))

variable {p : Probing α} {used : Finset α} {x y z : α} {xs ys : List α}

/-! ## One name -/

theorem firstFree_of_not_mem (hx : x ∉ used) : p.firstFree used x = x := by
  rw [firstFree, if_neg hx]

theorem firstFree_of_mem (hx : x ∈ used) : p.firstFree used x = p.firstFree used (p.next x) := by
  rw [firstFree, if_pos hx]

theorem firstFree_not_mem (used : Finset α) (x : α) : p.firstFree used x ∉ used := by
  induction x using firstFree.induct p used with
  | case1 x hx ih => rwa [firstFree_of_mem hx]
  | case2 x hx => rwa [firstFree_of_not_mem hx]

theorem lands_firstFree (used : Finset α) (x : α) :
    p.Lands (insert (p.firstFree used x) used) x (p.firstFree used x) := by
  induction x using firstFree.induct p used with
  | case1 x hx ih =>
      rw [firstFree_of_mem hx]
      obtain ⟨k, hk, hall⟩ := ih
      refine ⟨k + 1, hk, fun j hj ↦ ?_⟩
      cases j with
      | zero => exact Finset.mem_insert_of_mem hx
      | succ j => exact hall j (by omega)
  | case2 x hx =>
      rw [firstFree_of_not_mem hx]
      refine ⟨0, rfl, fun j hj ↦ ?_⟩
      obtain rfl := Nat.le_zero.mp hj
      exact Finset.mem_insert_self x used

/-! ## Many names -/

theorem place_append (used : Finset α) (xs ys : List α) :
    p.place used (xs ++ ys) = p.place used xs ++ p.place (used ∪ (p.place used xs).toFinset) ys := by
  induction xs generalizing used with
  | nil => simp [place]
  | cons x xs ih =>
      have hused : insert (p.firstFree used x) used ∪ (p.place (insert (p.firstFree used x) used) xs).toFinset =
          used ∪ (p.place used (x :: xs)).toFinset := by
        simp [place, Finset.union_insert, Finset.insert_union]
      rw [List.cons_append, place, ih, hused]
      rfl

theorem place_concat (xs : List α) (x : α) :
    p.place ∅ (xs ++ [x]) = p.place ∅ xs ++ [p.firstFree (p.place ∅ xs).toFinset x] := by
  rw [place_append, Finset.empty_union]
  rfl

theorem nodup_place (used : Finset α) (xs : List α) :
    (p.place used xs).Nodup ∧ ∀ y ∈ p.place used xs, y ∉ used := by
  induction xs generalizing used with
  | nil => exact ⟨List.nodup_nil, nofun⟩
  | cons x xs ih =>
      obtain ⟨hnodup, hfresh⟩ := ih (insert (p.firstFree used x) used)
      refine ⟨List.nodup_cons.mpr ⟨fun hmem ↦ hfresh _ hmem (Finset.mem_insert_self _ _), hnodup⟩, ?_⟩
      intro y hy hused
      rcases List.mem_cons.mp hy with rfl | hy
      · exact firstFree_not_mem used x hused
      · exact hfresh y hy (Finset.mem_insert_of_mem hused)

theorem place_lands (used : Finset α) (xs : List α) :
    List.Forall₂ (p.Lands (used ∪ (p.place used xs).toFinset)) xs (p.place used xs) := by
  induction xs generalizing used with
  | nil => exact .nil
  | cons x xs ih =>
      have hsub : insert (p.firstFree used x) used ∪ (p.place (insert (p.firstFree used x) used) xs).toFinset ⊆
          used ∪ (p.place used (x :: xs)).toFinset := by
        simp [place, Finset.union_insert, Finset.insert_union]
      exact .cons ((lands_firstFree used x).mono (Finset.subset_union_left.trans hsub))
        ((ih _).imp fun _ _ h ↦ h.mono hsub)

/-! ## Windows -/

theorem card_window (x : α) (n : ℕ) : (p.window x n).card = n := by
  rw [window, Finset.card_image_of_injOn fun _ _ _ _ h ↦ iterate_inj h, Finset.card_range]

theorem mem_window {n : ℕ} : y ∈ p.window x n ↔ ∃ k < n, p.next^[k] x = y := by
  simp [window]

theorem countP_mem_le_card (hnodup : ys.Nodup) (s : Finset α) : ys.countP (· ∈ s) ≤ s.card := by
  rw [List.countP_eq_length_filter, ← List.toFinset_card_of_nodup (hnodup.filter _)]
  exact Finset.card_le_card fun y hy ↦ by simpa using (List.mem_filter.mp (List.mem_toFinset.mp hy)).2

theorem card_le_countP_mem {s : Finset α} (hsub : ∀ y ∈ s, y ∈ ys) : s.card ≤ ys.countP (· ∈ s) := by
  rw [List.countP_eq_length_filter]
  refine (Finset.card_le_card fun y hy ↦ ?_).trans (List.toFinset_card_le _)
  rw [List.mem_toFinset, List.mem_filter]
  exact ⟨hsub y hy, by simpa using hy⟩

/-! ## Which names are taken -/

/-- A name that lands in a window is asked for in it, unless the name before the window is in use. -/
theorem Lands.mem_window_of_first {m : ℕ} (h : p.Lands used z y) (hfirst : ∀ w, p.next w = x → w ∉ used)
    (hy : y ∈ p.window x m) : z ∈ p.window x m := by
  obtain ⟨k, rfl, hall⟩ := h
  obtain ⟨i, hi, heq⟩ := mem_window.mp hy
  rcases Nat.lt_or_ge i k with hlt | hle
  · -- The window would start after a name in use.
    obtain ⟨d, rfl⟩ := Nat.exists_eq_add_of_lt hlt
    rw [Nat.add_assoc, Function.iterate_add_apply] at heq
    have hx : x = p.next^[d + 1] z := p.injective.iterate i heq
    rw [Function.iterate_succ_apply'] at hx
    exact absurd (hall d (by omega)) (hfirst _ hx.symm)
  · obtain ⟨d, rfl⟩ := Nat.exists_eq_add_of_le hle
    rw [Function.iterate_add_apply] at heq
    exact mem_window.mpr ⟨d, by omega, p.injective.iterate k heq⟩

/-- A name that is asked for in a window does not get beyond a free one. -/
theorem Lands.mem_window_of_free {m : ℕ} (h : p.Lands used z y) (hfree : p.next^[m] x ∉ used)
    (hz : z ∈ p.window x (m + 1)) : y ∈ p.window x m := by
  obtain ⟨k, rfl, hall⟩ := h
  obtain ⟨i, hi, rfl⟩ := mem_window.mp hz
  obtain ⟨d, rfl⟩ := Nat.exists_eq_add_of_le (Nat.le_of_lt_succ hi)
  have hlt : k < d := by
    by_contra hle
    have hmem := hall d (by omega)
    rw [← Function.iterate_add_apply, Nat.add_comm] at hmem
    exact hfree hmem
  exact mem_window.mpr ⟨k + i, by omega, Function.iterate_add_apply _ _ _ _⟩

theorem mem_place_iff_crowded : y ∈ p.place ∅ xs ↔ p.Crowded xs y := by
  have hlands := place_lands (p := p) ∅ xs
  have hnodup := (nodup_place (p := p) ∅ xs).1
  rw [Finset.empty_union] at hlands
  constructor
  · intro hy
    obtain ⟨x, m, hm, hall, hfirst⟩ := exists_run (p := p) (List.mem_toFinset.mpr hy)
    refine ⟨x, m, hm, ?_⟩
    have hsub : ∀ z ∈ p.window x (m + 1), z ∈ p.place ∅ xs := by
      intro z hz
      obtain ⟨k, hk, rfl⟩ := mem_window.mp hz
      exact List.mem_toFinset.mp (hall k (by omega))
    have hasked : (p.place ∅ xs).countP (· ∈ p.window x (m + 1)) ≤ xs.countP (· ∈ p.window x (m + 1)) :=
      countP_le_of_forall₂ hlands.flip fun y z h hy ↦
        decide_eq_true (Lands.mem_window_of_first h hfirst (of_decide_eq_true hy))
    have hcard := card_le_countP_mem hsub
    rw [card_window] at hcard
    omega
  · rintro ⟨x, m, rfl, hlt⟩
    by_contra hfree
    have hgiven : xs.countP (· ∈ p.window x (m + 1)) ≤ (p.place ∅ xs).countP (· ∈ p.window x m) :=
      countP_le_of_forall₂ hlands fun z y h hz ↦ decide_eq_true
        (h.mem_window_of_free (mt List.mem_toFinset.mp hfree) (of_decide_eq_true hz))
    have hcard := countP_mem_le_card hnodup (p.window x m)
    rw [card_window] at hcard
    omega

/-- The name that is given out last. -/
theorem firstFree_place_eq_iff :
    p.firstFree (p.place ∅ xs).toFinset x = y ↔ p.Crowded (xs ++ [x]) y ∧ ¬p.Crowded xs y := by
  rw [← mem_place_iff_crowded, ← mem_place_iff_crowded, place_concat, List.mem_append, List.mem_singleton]
  constructor
  · rintro rfl
    exact ⟨.inr rfl, mt List.mem_toFinset.mpr (firstFree_not_mem _ x)⟩
  · rintro ⟨hmem | rfl, hfree⟩
    · exact absurd hmem hfree
    · rfl

end Probing
