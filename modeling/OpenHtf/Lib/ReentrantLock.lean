import Mathlib.Logic.Function.Iterate
import Mathlib.Tactic.Common

/-!
# Reentrant locks, and steps of another thread

A reentrant lock is free or held by one thread a number of times.  The second
part is about a thread that is interrupted by steps of another one: whatever
each single step keeps, any number of them keeps.
-/

/-- A reentrant lock over thread names `τ`: free, or held by a thread that has
entered it `reentries + 1` times. -/
inductive ReentrantLock (τ : Type*) where
  | free
  | held (owner : τ) (reentries : ℕ)
  deriving DecidableEq

namespace ReentrantLock

variable {τ : Type*} [DecidableEq τ]

/-- How many times thread `t` has entered the lock and not left it. -/
def depth (t : τ) : ReentrantLock τ → ℕ
  | free => 0
  | held owner n => if owner = t then n + 1 else 0

/-- A non-blocking acquire; `none` when another thread holds the lock. -/
def tryAcquire (t : τ) : ReentrantLock τ → Option (ReentrantLock τ)
  | free => some (held t 0)
  | held owner n => if owner = t then some (held t (n + 1)) else none

/-- Leave the lock once; without effect for a thread that does not hold it. -/
def release (t : τ) : ReentrantLock τ → ReentrantLock τ
  | free => free
  | held owner n =>
      if owner = t then
        match n with
        | 0 => free
        | n + 1 => held t n
      else held owner n

variable {t u : τ} {l l' : ReentrantLock τ}

@[simp] theorem depth_free : (free : ReentrantLock τ).depth t = 0 := rfl

/-- Two threads are never inside the lock at the same time. -/
theorem depth_eq_zero_of_ne (h : 0 < l.depth t) (hu : u ≠ t) : l.depth u = 0 := by
  cases l with
  | free => rfl
  | held owner n =>
      have ht : owner = t := by
        by_contra hne
        simp [depth, hne] at h
      simp [depth, ht, hu.symm]

theorem depth_tryAcquire (h : l.tryAcquire t = some l') : l'.depth t = l.depth t + 1 := by
  cases l with
  | free =>
      obtain rfl := Option.some.inj h
      simp [depth]
  | held owner n =>
      by_cases ho : owner = t
      · obtain rfl : held t (n + 1) = l' := by simpa [tryAcquire, ho] using h
        simp [depth, ho]
      · simp [tryAcquire, ho] at h

theorem depth_tryAcquire_of_ne (h : l.tryAcquire t = some l') (hu : u ≠ t) :
    l'.depth u = l.depth u := by
  cases l with
  | free =>
      obtain rfl := Option.some.inj h
      simp [depth, hu.symm]
  | held owner n =>
      by_cases ho : owner = t
      · obtain rfl : held t (n + 1) = l' := by simpa [tryAcquire, ho] using h
        simp [depth, ho, hu.symm]
      · simp [tryAcquire, ho] at h

/-- The acquire of one thread succeeds exactly when no other thread is inside. -/
theorem tryAcquire_eq_none_iff :
    l.tryAcquire t = none ↔ ∃ u, u ≠ t ∧ 0 < l.depth u := by
  cases l with
  | free => simp [tryAcquire, depth]
  | held owner n =>
      by_cases ho : owner = t
      · subst ho
        simp only [tryAcquire, if_true, reduceCtorEq, false_iff, not_exists, not_and]
        intro u hu
        simp [depth, hu.symm]
      · simp only [tryAcquire, ho, if_false, true_iff]
        exact ⟨owner, ho, by simp [depth]⟩

@[simp] theorem depth_release : (l.release t).depth t = l.depth t - 1 := by
  cases l with
  | free => rfl
  | held owner n =>
      by_cases ho : owner = t
      · cases n <;> simp [release, depth, ho]
      · simp [release, depth, ho]

theorem depth_release_of_ne (hu : u ≠ t) : (l.release t).depth u = l.depth u := by
  cases l with
  | free => rfl
  | held owner n =>
      by_cases ho : owner = t
      · cases n <;> simp [release, depth, ho, hu.symm]
      · simp [release, depth, ho]

end ReentrantLock

/-! ## Steps of another thread -/

section Interference

variable {σ : Type*} {step : σ → σ} {I : σ → Prop} {R : σ → σ → Prop}

/-- What each step keeps, any number of steps keeps. -/
theorem iterate_keeps (h : ∀ s, I s → I (step s)) (n : ℕ) {s : σ} (hs : I s) :
    I (step^[n] s) := by
  induction n generalizing s with
  | zero => exact hs
  | succ n ih => exact ih (h s hs)

/-- A reflexive and transitive relation that holds across each step holds
across any number of steps. -/
theorem iterate_within [Std.Refl R] [IsTrans σ R] (h : ∀ s, R s (step s)) (n : ℕ) (s : σ) :
    R s (step^[n] s) := by
  induction n generalizing s with
  | zero => exact Std.Refl.refl s
  | succ n ih => exact IsTrans.trans _ _ _ (h s) (ih (step s))

/-- Let another thread run until it has left a section, at most `fuel` steps. -/
def runUntil (done : σ → Bool) (step : σ → σ) : ℕ → σ → σ
  | 0, s => s
  | fuel + 1, s => if done s then s else runUntil done step fuel (step s)

theorem runUntil_keeps {done : σ → Bool} (h : ∀ s, I s → I (step s)) (fuel : ℕ) {s : σ}
    (hs : I s) : I (runUntil done step fuel s) := by
  induction fuel generalizing s with
  | zero => exact hs
  | succ fuel ih =>
      simp only [runUntil]
      split
      · exact hs
      · exact ih (h s hs)

/-- It does leave the section when `m` counts its steps down to the exit. -/
theorem done_runUntil {done : σ → Bool} {m : σ → ℕ} (hleft : ∀ s, I s → m s = 0 → done s)
    (hstep : ∀ s, I s → done s = false → I (step s) ∧ m (step s) < m s)
    (fuel : ℕ) {s : σ} (hs : I s) (hfuel : m s ≤ fuel) : done (runUntil done step fuel s) := by
  induction fuel generalizing s with
  | zero => exact hleft s hs (by omega)
  | succ fuel ih =>
      simp only [runUntil]
      cases hd : done s with
      | true => simpa using hd
      | false =>
          obtain ⟨hi, hlt⟩ := hstep s hs hd
          simpa using ih hi (by omega)

end Interference
