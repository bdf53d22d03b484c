import Mathlib.Logic.Function.Basic

/-!
# Locks and the sections that they guard

Threads `τ` with places `π` in their code share a lock, which is free or names
its holder.  `Guards` says that the holder is exactly the thread whose place is
inside; the rules keep it when a thread moves, enters and leaves.
-/

set_option autoImplicit false

universe u v

/-- A thread is inside exactly when it holds the lock. -/
def Guards {τ : Type u} {π : Type v} (lock : Option τ) (inside : π → Prop) (pc : τ → π) : Prop :=
  ∀ i, inside (pc i) ↔ lock = some i

namespace Guards

variable {τ : Type u} {π : Type v} {lock : Option τ} {inside : π → Prop} {pc : τ → π} {i j : τ}

theorem lock_eq (h : Guards lock inside pc) (hi : inside (pc i)) : lock = some i := (h i).mp hi

/-- No two threads are inside. -/
theorem exclusive (h : Guards lock inside pc) (hi : inside (pc i)) (hj : inside (pc j)) : i = j :=
  Option.some.inj ((h.lock_eq hi).symm.trans (h.lock_eq hj))

/-- All threads move, each of them within or outside the section. -/
theorem map (h : Guards lock inside pc) {pc' : τ → π} (hpc : ∀ i, inside (pc' i) ↔ inside (pc i)) :
    Guards lock inside pc' :=
  fun i ↦ (hpc i).trans (h i)

section Update

variable [DecidableEq τ] {p : π}

theorem move (h : Guards lock inside pc) (hp : inside p ↔ inside (pc i)) :
    Guards lock inside (Function.update pc i p) := by
  refine h.map fun j ↦ ?_
  by_cases hj : j = i
  · rw [hj, Function.update_self, hp]
  · rw [Function.update_of_ne hj]

theorem enter (h : Guards none inside pc) (hp : inside p) :
    Guards (some i) inside (Function.update pc i p) := by
  intro j
  by_cases hj : j = i
  · subst hj
    simp [hp]
  · rw [Function.update_of_ne hj, h j, Option.some_inj]
    exact ⟨nofun, fun hij ↦ absurd hij.symm hj⟩

theorem leave (h : Guards (some i) inside pc) (hp : ¬inside p) :
    Guards none inside (Function.update pc i p) := by
  intro j
  by_cases hj : j = i
  · subst hj
    simp [hp]
  · rw [Function.update_of_ne hj, h j, Option.some_inj]
    exact ⟨fun hij ↦ absurd hij.symm hj, nofun⟩

end Update

end Guards
