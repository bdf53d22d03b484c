import Mathlib.Algebra.BigOperators.Group.List.Basic
import Mathlib.Algebra.GroupWithZero.Nat
import Mathlib.Order.MinMax

/-!
# Packing into a budget, round after round

In a round the items that are not done yet are taken as long as they fit into a
budget; the first of them is taken in any case.  Those that are taken are done in
the next round.
-/

set_option autoImplicit false

universe u

/-- What becomes of an item in a round. -/
inductive Fate where
  | done
  | taken
  | left
  deriving DecidableEq

structure Packing (α : Type u) where
  bounded : Bool
  limit : ℕ
  size : α → ℕ
  done : α → Bool

namespace Packing

variable {α : Type u} (P : Packing α)

/-- The fate of an item after items of these sizes were taken. -/
def fate (sizes : List ℕ) (x : α) : Fate :=
  if P.done x then .done
  else if P.bounded && !sizes.isEmpty && decide (P.limit < sizes.sum + P.size x) then .left
  else .taken

def fates : List ℕ → List α → List (α × Fate)
  | _, [] => []
  | sizes, x :: xs =>
    (x, P.fate sizes x) :: fates (if P.fate sizes x = .taken then sizes ++ [P.size x] else sizes) xs

def takenSizes (fs : List (α × Fate)) : List ℕ := (fs.filter (·.2 = .taken)).map (P.size ·.1)

def fateCount (f : Fate) (fs : List (α × Fate)) : ℕ := fs.countP (·.2 = f)

theorem fateCount_pos {fs : List (α × Fate)} {f : α × Fate} (h : f ∈ fs) : 0 < fateCount f.2 fs :=
  List.countP_pos_iff.mpr ⟨f, h, by simp⟩

/-! ## One round -/

theorem fate_eq_done_iff (sizes : List ℕ) (x : α) : P.fate sizes x = .done ↔ P.done x = true := by
  unfold fate
  split
  · rename_i h
    simp [h]
  · rename_i h
    split <;> simp [h]

theorem done_eq_false {sizes : List ℕ} {x : α} (h : P.fate sizes x ≠ .done) : P.done x = false := by
  rw [← Bool.not_eq_true, ← P.fate_eq_done_iff sizes]
  exact h

theorem fate_nil {x : α} (h : P.done x = false) : P.fate [] x = .taken := by
  simp [fate, h]

theorem fate_ne_left {x : α} (h : P.bounded = false) (sizes : List ℕ) : P.fate sizes x ≠ .left := by
  unfold fate
  split
  · nofun
  · simp [h]

theorem map_fst_fates (sizes : List ℕ) (xs : List α) : (P.fates sizes xs).map Prod.fst = xs := by
  induction xs generalizing sizes with
  | nil => rfl
  | cons x xs ih => rw [fates, List.map_cons, ih]

/-- Each fate is the one that an item has after some items were taken. -/
theorem exists_fate_of_mem {sizes : List ℕ} {xs : List α} {f : α × Fate} (h : f ∈ P.fates sizes xs) :
    ∃ sizes', f.2 = P.fate sizes' f.1 := by
  induction xs generalizing sizes with
  | nil => cases h
  | cons x xs ih =>
      rcases List.mem_cons.mp h with rfl | h
      · exact ⟨sizes, rfl⟩
      · exact ih h

theorem fates_done_iff {sizes : List ℕ} {xs : List α} {f : α × Fate} (h : f ∈ P.fates sizes xs) :
    f.2 = .done ↔ P.done f.1 = true := by
  obtain ⟨sizes', hf⟩ := P.exists_fate_of_mem h
  rw [hf]
  exact P.fate_eq_done_iff sizes' f.1

theorem fates_ne_left {sizes : List ℕ} {xs : List α} {f : α × Fate} (hbounded : P.bounded = false)
    (h : f ∈ P.fates sizes xs) : f.2 ≠ .left := by
  obtain ⟨sizes', hf⟩ := P.exists_fate_of_mem h
  rw [hf]
  exact P.fate_ne_left hbounded sizes'

/-- The sizes are within the budget, the first one apart. -/
def Within (sizes : List ℕ) : Prop := sizes.sum ≤ max P.limit (sizes.headD 0)

theorem within_append {sizes : List ℕ} {x : α} (hbounded : P.bounded = true) (h : P.Within sizes)
    (hx : P.fate sizes x = .taken) : P.Within (sizes ++ [P.size x]) := by
  unfold Within at h ⊢
  cases sizes with
  | nil => simp
  | cons n sizes =>
      have hfits : (n :: sizes).sum + P.size x ≤ P.limit := by
        by_contra hover
        rw [not_le] at hover
        unfold fate at hx
        split at hx
        · cases hx
        · rw [hbounded, decide_eq_true hover] at hx
          simp at hx
      rw [List.sum_append, List.sum_singleton]
      exact le_max_of_le_left hfits

theorem within_fates {sizes : List ℕ} (hbounded : P.bounded = true) (h : P.Within sizes) (xs : List α) :
    P.Within (sizes ++ P.takenSizes (P.fates sizes xs)) := by
  induction xs generalizing sizes with
  | nil =>
      rw [fates, takenSizes, List.filter_nil, List.map_nil, List.append_nil]
      exact h
  | cons x xs ih =>
      rw [fates]
      by_cases hx : P.fate sizes x = .taken
      · have hrest := ih (P.within_append hbounded h hx)
        rw [List.append_assoc] at hrest
        simpa [takenSizes, hx] using hrest
      · simpa [takenSizes, hx] using ih h

/-- While something is not done, something is taken. -/
theorem exists_taken {xs : List α} (h : ∃ x ∈ xs, P.done x = false) :
    ∃ f ∈ P.fates [] xs, f.2 = .taken := by
  induction xs with
  | nil =>
      obtain ⟨x, hx, _⟩ := h
      cases hx
  | cons y xs ih =>
      rw [fates]
      cases hy : P.done y with
      | false => exact ⟨_, List.mem_cons_self, P.fate_nil hy⟩
      | true =>
          have hdone : P.fate [] y = .done := (P.fate_eq_done_iff [] y).mpr hy
          have hrest : ∃ x ∈ xs, P.done x = false := by
            obtain ⟨x, hx, hnot⟩ := h
            rcases List.mem_cons.mp hx with rfl | hx
            · rw [hy] at hnot
              cases hnot
            · exact ⟨x, hx, hnot⟩
          obtain ⟨f, hf, htaken⟩ := ih hrest
          refine ⟨f, List.mem_cons_of_mem _ ?_, htaken⟩
          rwa [hdone, if_neg (by decide)]

/-! ## Rounds -/

/-- How many items are not done. -/
def missing (xs : List α) : ℕ := xs.countP fun x ↦ !P.done x

theorem missing_eq (sizes : List ℕ) (xs : List α) :
    P.missing xs = fateCount .taken (P.fates sizes xs) + fateCount .left (P.fates sizes xs) := by
  induction xs generalizing sizes with
  | nil => rfl
  | cons x xs ih =>
      have hrest := ih (if P.fate sizes x = .taken then sizes ++ [P.size x] else sizes)
      unfold missing fateCount at hrest ⊢
      rw [fates, List.countP_cons, List.countP_cons, List.countP_cons, hrest]
      cases hx : P.fate sizes x with
      | done => simp [(P.fate_eq_done_iff sizes x).mp hx]
      | taken =>
          have hnot : P.done x = false := P.done_eq_false (by rw [hx]; nofun)
          simp [hnot]
          omega
      | left =>
          have hnot : P.done x = false := P.done_eq_false (by rw [hx]; nofun)
          simp [hnot]
          omega

/-- With one item that is not done, none is left. -/
theorem fates_ne_left_of_missing {xs : List α} (h : P.missing xs ≤ 1) {f : α × Fate}
    (hf : f ∈ P.fates [] xs) : f.2 ≠ .left := by
  intro hleft
  have hsum := P.missing_eq [] xs
  have hleftPos := fateCount_pos hf
  have hsome : ∃ x ∈ xs, P.done x = false := by
    have hmem : f.1 ∈ (P.fates [] xs).map Prod.fst := List.mem_map_of_mem hf
    rw [P.map_fst_fates] at hmem
    obtain ⟨sizes, hfate⟩ := P.exists_fate_of_mem hf
    exact ⟨f.1, hmem, P.done_eq_false (by rw [← hfate, hleft]; nofun)⟩
  obtain ⟨g, hg, htaken⟩ := P.exists_taken hsome
  have htakenPos := fateCount_pos hg
  rw [hleft] at hleftPos
  rw [htaken] at htakenPos
  omega

/-- What was done or taken is done in the next round. -/
def Next (P Q : Packing α) (xs : List α) : Prop := ∀ f ∈ P.fates [] xs, f.2 ≠ .left → Q.done f.1 = true

theorem missing_next {P Q : Packing α} {xs : List α} (h : P.Next Q xs) : Q.missing xs ≤ P.missing xs - 1 := by
  have hleft : Q.missing xs ≤ fateCount .left (P.fates [] xs) := by
    unfold missing fateCount
    conv_lhs => rw [← P.map_fst_fates [] xs, List.countP_map]
    apply List.countP_mono_left
    intro f hf hmissing
    rw [decide_eq_true_eq]
    by_contra hnot
    simp [h f hf hnot] at hmissing
  have hsum := P.missing_eq [] xs
  by_cases hzero : P.missing xs = 0
  · omega
  · obtain ⟨x, hx, hnot⟩ := List.countP_pos_iff.mp (Nat.pos_of_ne_zero hzero)
    obtain ⟨f, hf, htaken⟩ := P.exists_taken ⟨x, hx, by simpa using hnot⟩
    have htakenPos := fateCount_pos hf
    rw [htaken] at htakenPos
    omega

theorem missing_rounds {P : ℕ → Packing α} {xs : List α} (h : ∀ k, (P k).Next (P (k + 1)) xs) (k : ℕ) :
    (P k).missing xs ≤ xs.length - k := by
  induction k with
  | zero => exact List.countP_le_length
  | succ k ih =>
      have hnext := missing_next (h k)
      omega

/-- After as many rounds as there are items, all are done. -/
theorem done_rounds {P : ℕ → Packing α} {xs : List α} (h : ∀ k, (P k).Next (P (k + 1)) xs) {x : α}
    (hx : x ∈ xs) : (P xs.length).done x = true := by
  have hzero := missing_rounds h xs.length
  rw [Nat.sub_self, Nat.le_zero] at hzero
  simpa using List.countP_eq_zero.mp hzero x hx

/-- In the last of these rounds, if not before, nothing is left. -/
theorem ne_left_rounds {P : ℕ → Packing α} {xs : List α} (h : ∀ k, (P k).Next (P (k + 1)) xs) {f : α × Fate}
    (hf : f ∈ (P (xs.length - 1)).fates [] xs) : f.2 ≠ .left := by
  have hone := missing_rounds h (xs.length - 1)
  exact fates_ne_left_of_missing _ (by omega) hf

end Packing
