import Mathlib.Logic.Basic
import Mathlib.Order.Defs.Unbundled

/-!
# Statements of an imperative language with exceptions

An `Act σ ε α` runs in a state `σ` and ends by returning an `α` or by raising
an `ε`.  What it did to the state before raising stays done, as in Python.

There are two ways to reason about a statement.  Its weakest precondition `wp`
is computed by the rules `wp_pure`, `wp_bind` and so on, and `wp.mono` applies
what is known of a part.  A relation between the states before and after it is
`Within`, with one rule for each way to compose statements.
-/

set_option autoImplicit false

/-- A statement over states `σ`: it returns an `α` or raises an `ε`, and the
state it reached survives in both cases. -/
def Act (σ ε α : Type*) := σ → Except ε α × σ

namespace Act

universe u

variable {σ ε : Type*} {α β : Type u}

/-- Continue an outcome: after a return with `f`, after a raise not at all. -/
def andThen (f : α → Act σ ε β) : Except ε α × σ → Except ε β × σ
  | (.ok a, s) => f a s
  | (.error e, s) => (.error e, s)

instance : Monad (Act σ ε) where
  pure a := fun s ↦ (.ok a, s)
  bind x f := fun s ↦ andThen f (x s)

def raise (e : ε) : Act σ ε α := fun s ↦ (.error e, s)

/-- Read a part of the state. -/
def gets (f : σ → α) : Act σ ε α := fun s ↦ (.ok (f s), s)

def modify (f : σ → σ) : Act σ ε Unit := fun s ↦ (.ok (), f s)

/-- A computation that has nothing to do with the state. -/
def ofExcept (r : Except ε α) : Act σ ε α := fun s ↦ (r, s)

/-- `try x except e: handler e`. -/
def catching (x : Act σ ε α) (handler : ε → Act σ ε α) : Act σ ε α := fun s ↦
  match x s with
  | (.ok a, s') => (.ok a, s')
  | (.error e, s') => handler e s'

/-- `try x finally y`: an exception of `y` replaces the outcome of `x`. -/
def finally' (x : Act σ ε α) (y : Act σ ε Unit) : Act σ ε α := fun s ↦
  let (r, s') := x s
  match y s' with
  | (.ok _, s'') => (r, s'')
  | (.error e, s'') => (.error e, s'')

@[simp] theorem pure_apply (a : α) (s : σ) : (pure a : Act σ ε α) s = (.ok a, s) := rfl

@[simp] theorem bind_apply (x : Act σ ε α) (f : α → Act σ ε β) (s : σ) :
    (x >>= f) s = andThen f (x s) := rfl

theorem bind_eq_ok_iff {x : Act σ ε α} {f : α → Act σ ε β} {s s' : σ} {b : β} :
    (x >>= f) s = (.ok b, s') ↔ ∃ a t, x s = (.ok a, t) ∧ f a t = (.ok b, s') := by
  rw [bind_apply]
  rcases x s with ⟨e | a, t⟩
  · simp [andThen]
  · constructor
    · exact fun h ↦ ⟨a, t, rfl, h⟩
    · rintro ⟨_, _, ⟨⟩, h⟩
      exact h

@[simp] theorem ofExcept_apply (r : Except ε α) (s : σ) : ofExcept r s = (r, s) := rfl

@[simp] theorem raise_apply (e : ε) (s : σ) : (raise e : Act σ ε α) s = (.error e, s) := rfl

@[simp] theorem gets_apply (f : σ → α) (s : σ) : (gets f : Act σ ε α) s = (.ok (f s), s) := rfl

@[simp] theorem modify_apply (f : σ → σ) (s : σ) :
    (modify f : Act σ ε Unit) s = (.ok (), f s) := rfl

/-! ## Weakest preconditions -/

/-- From the state `s`, `x` returns as `Q` says or raises as `E` says. -/
def wp (x : Act σ ε α) (Q : α → σ → Prop) (E : ε → σ → Prop) (s : σ) : Prop :=
  match x s with
  | (.ok a, s') => Q a s'
  | (.error e, s') => E e s'

section Rules

variable {Q : α → σ → Prop} {E : ε → σ → Prop}

@[simp] theorem wp_pure {a : α} : wp (pure a : Act σ ε α) Q E = Q a := rfl

@[simp] theorem wp_raise {e : ε} : wp (raise e : Act σ ε α) Q E = E e := rfl

@[simp] theorem wp_gets {f : σ → α} : wp (gets f : Act σ ε α) Q E = fun s ↦ Q (f s) s := rfl

@[simp] theorem wp_modify {f : σ → σ} {Q : Unit → σ → Prop} :
    wp (modify f : Act σ ε Unit) Q E = fun s ↦ Q () (f s) := rfl

@[simp] theorem wp_bind {x : Act σ ε β} {f : β → Act σ ε α} :
    wp (x >>= f) Q E = wp x (fun b ↦ wp (f b) Q E) E := by
  funext s
  simp only [wp, bind_apply]
  rcases x s with ⟨_ | _, s'⟩ <;> rfl

@[simp] theorem wp_catching {x : Act σ ε α} {handler : ε → Act σ ε α} :
    wp (catching x handler) Q E = wp x Q (fun e ↦ wp (handler e) Q E) := by
  funext s
  simp only [wp, catching]
  rcases x s with ⟨_ | _, s'⟩ <;> rfl

@[simp] theorem wp_finally {x : Act σ ε α} {y : Act σ ε Unit} :
    wp (finally' x y) Q E =
      wp x (fun a ↦ wp y (fun _ ↦ Q a) E) (fun e ↦ wp y (fun _ ↦ E e) E) := by
  funext s
  simp only [wp, finally']
  rcases x s with ⟨_ | _, s'⟩ <;> rcases hy : y s' with ⟨_ | _, s''⟩ <;> simp [hy]

@[simp] theorem wp_ite {c : Prop} [Decidable c] {x y : Act σ ε α} :
    wp (if c then x else y) Q E = fun s ↦ if c then wp x Q E s else wp y Q E s := by
  funext s
  split <;> rfl

end Rules

theorem wp.mono {x : Act σ ε α} {Q Q' : α → σ → Prop} {E E' : ε → σ → Prop} {s : σ}
    (h : wp x Q E s) (hQ : ∀ a s', Q a s' → Q' a s') (hE : ∀ e s', E e s' → E' e s') :
    wp x Q' E' s := by
  unfold wp at h ⊢
  rcases hr : x s with ⟨_ | _, s'⟩ <;> rw [hr] at h
  · exact hE _ _ h
  · exact hQ _ _ h

theorem wp.and {x : Act σ ε α} {Q Q' : α → σ → Prop} {E E' : ε → σ → Prop} {s : σ}
    (h : wp x Q E s) (h' : wp x Q' E' s) :
    wp x (fun a s' ↦ Q a s' ∧ Q' a s') (fun e s' ↦ E e s' ∧ E' e s') s := by
  unfold wp at h h' ⊢
  rcases hr : x s with ⟨_ | _, s'⟩ <;> rw [hr] at h h'
  · exact ⟨h, h'⟩
  · exact ⟨h, h'⟩

/-- A condition on what is known before. -/
theorem wp.imp {x : Act σ ε α} {P : Prop} {Q : α → σ → Prop} {s : σ}
    (h : P → wp x Q (fun _ _ ↦ True) s) : wp x (fun a s' ↦ P → Q a s') (fun _ _ ↦ True) s := by
  unfold wp at h ⊢
  rcases hr : x s with ⟨_ | _, s'⟩ <;> rw [hr] at h
  · trivial
  · exact h

/-- A statement that does not end as its raises do returns. -/
theorem wp.returns {x : Act σ ε α} {Q : α → σ → Prop} {P : σ → Prop} {s : σ}
    (h : wp x Q (fun _ ↦ P) s) (hp : ¬P (x s).2) : wp x Q (fun _ _ ↦ False) s := by
  unfold wp at h ⊢
  rcases hr : x s with ⟨_ | _, s'⟩ <;> rw [hr] at h hp
  · exact hp h
  · exact h

theorem wp.isOk {x : Act σ ε α} {Q : α → σ → Prop} {s : σ} (h : wp x Q (fun _ _ ↦ False) s) :
    (x s).1.isOk = true := by
  unfold wp at h
  rcases hr : x s with ⟨_ | _, s'⟩
  · rw [hr] at h
    exact h.elim
  · rfl

theorem wp.of_ok {x : Act σ ε α} {Q : α → σ → Prop} {E : ε → σ → Prop} {s s' : σ} {a : α}
    (h : wp x Q E s) (hr : x s = (.ok a, s')) : Q a s' := by
  simpa [wp, hr] using h

theorem wp.of_error {x : Act σ ε α} {Q : α → σ → Prop} {E : ε → σ → Prop} {s s' : σ} {e : ε}
    (h : wp x Q E s) (hr : x s = (.error e, s')) : E e s' := by
  simpa [wp, hr] using h

/-- What a statement returned is what it returns. -/
theorem wp.run {x : Act σ ε α} {Q : α → σ → Prop} {E : ε → σ → Prop} {s : σ} (h : wp x Q E s) :
    wp x (fun a s' ↦ Q a s' ∧ x s = (.ok a, s')) E s := by
  unfold wp at h ⊢
  rcases hr : x s with ⟨_ | _, s'⟩ <;> rw [hr] at h
  · exact h
  · exact ⟨h, rfl⟩

theorem wp_eq_of_ok {x : Act σ ε α} {Q : α → σ → Prop} {E : ε → σ → Prop} {s s' : σ} {a : α}
    (hr : x s = (.ok a, s')) : wp x Q E s = Q a s' := by
  simp [wp, hr]

/-- A postcondition that is the same for a return and a raise is about the
state reached. -/
theorem wp_same {x : Act σ ε α} {P : σ → Prop} {s : σ} :
    wp x (fun _ ↦ P) (fun _ ↦ P) s ↔ P (x s).2 := by
  unfold wp
  rcases x s with ⟨_ | _, s'⟩ <;> rfl

/-! ## Invariants that only some exceptions break -/

/-- From a state that satisfies `P`, `x` returns in such a state or raises as
`E` says. -/
def Safe (P : σ → Prop) (E : ε → σ → Prop) (x : Act σ ε α) : Prop := ∀ s, P s → wp x (fun _ ↦ P) E s

namespace Safe

variable {P : σ → Prop} {E E' : ε → σ → Prop} {x : Act σ ε α}

theorem pure {a : α} : Safe P E (pure a : Act σ ε α) := fun _ h ↦ h

theorem gets {f : σ → α} : Safe P E (gets f : Act σ ε α) := fun _ h ↦ h

theorem raise {e : ε} (h : ∀ s, P s → E e s) : Safe P E (raise e : Act σ ε α) := h

theorem modify {f : σ → σ} (h : ∀ s, P s → P (f s)) : Safe P E (modify f : Act σ ε Unit) := h

theorem bind {x : Act σ ε β} {f : β → Act σ ε α} (hx : Safe P E x) (hf : ∀ b, Safe P E (f b)) :
    Safe P E (x >>= f) := fun s hs ↦ by
  rw [wp_bind]
  exact (hx s hs).mono (fun b s' h ↦ hf b s' h) fun _ _ h ↦ h

theorem ite {c : Prop} [Decidable c] {y : Act σ ε α} (hx : c → Safe P E x) (hy : ¬c → Safe P E y) :
    Safe P E (if c then x else y) := by
  split
  · exact hx ‹_›
  · exact hy ‹_›

theorem catching {handler : ε → Act σ ε α} (hx : Safe P E' x)
    (hh : ∀ e s, E' e s → wp (handler e) (fun _ ↦ P) E s) : Safe P E (catching x handler) :=
  fun s hs ↦ by
    rw [wp_catching]
    exact (hx s hs).mono (fun _ _ h ↦ h) hh

theorem weaken (h : Safe P E' x) (hE : ∀ e s, E' e s → E e s) : Safe P E x :=
  fun s hs ↦ (h s hs).mono (fun _ _ h ↦ h) hE

end Safe

/-! ## Relations between the state before and after -/

/-- Every run of `x` is a step of the relation `R`, whether it returns or raises. -/
def Within (R : σ → σ → Prop) (x : Act σ ε α) : Prop := ∀ s, R s (x s).2

namespace Within

variable {R : σ → σ → Prop} {x : Act σ ε α}

theorem modify {f : σ → σ} (h : ∀ s, R s (f s)) : Within R (modify f : Act σ ε Unit) := h

theorem weaken {S : σ → σ → Prop} (h : Within R x) (hS : ∀ s s', R s s' → S s s') : Within S x :=
  fun s ↦ hS _ _ (h s)

theorem wp (h : Within R x) (s : σ) : wp x (fun _ ↦ R s) (fun _ ↦ R s) s := wp_same.mpr (h s)

theorem ite {c : Prop} [Decidable c] {y : Act σ ε α} (hx : c → Within R x) (hy : ¬c → Within R y) :
    Within R (if c then x else y) := by
  split
  · exact hx ‹_›
  · exact hy ‹_›

section Refl

variable [Std.Refl R]

theorem pure {a : α} : Within R (pure a : Act σ ε α) := fun s ↦ Std.Refl.refl s

theorem raise {e : ε} : Within R (raise e : Act σ ε α) := fun s ↦ Std.Refl.refl s

theorem gets {f : σ → α} : Within R (gets f : Act σ ε α) := fun s ↦ Std.Refl.refl s

end Refl

section Trans

variable [IsTrans σ R]

theorem bind {f : β → Act σ ε α} {x : Act σ ε β} (hx : Within R x) (hf : ∀ b, Within R (f b)) :
    Within R (x >>= f) := by
  intro s
  have h := hx s
  rcases hr : x s with ⟨_ | b, s'⟩ <;> rw [hr] at h
  · simpa [hr, andThen] using h
  · simpa [hr, andThen] using IsTrans.trans _ _ _ h (hf b s')

theorem catching {handler : ε → Act σ ε α} (hx : Within R x) (hh : ∀ e, Within R (handler e)) :
    Within R (catching x handler) := by
  intro s
  have h := hx s
  rcases hr : x s with ⟨e | _, s'⟩ <;> rw [hr] at h
  · simpa [Act.catching, hr] using IsTrans.trans _ _ _ h (hh e s')
  · simpa [Act.catching, hr] using h

theorem finally' {y : Act σ ε Unit} (hx : Within R x) (hy : Within R y) :
    Within R (finally' x y) := by
  intro s
  have h := IsTrans.trans _ _ _ (hx s) (hy (x s).2)
  rcases hr : x s with ⟨_ | _, s'⟩ <;> rw [hr] at h <;>
    rcases hr' : y s' with ⟨_ | _, s''⟩ <;> simpa [Act.finally', hr, hr'] using h

end Trans

end Within

/-- The relation of keeping an invariant. -/
def Preserves (P : σ → Prop) (s s' : σ) : Prop := P s → P s'

instance {P : σ → Prop} : Std.Refl (Preserves P) where
  refl _ h := h

instance {P : σ → Prop} : IsTrans σ (Preserves P) where
  trans _ _ _ h h' := fun hs ↦ h' (h hs)

end Act
