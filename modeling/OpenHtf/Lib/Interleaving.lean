import Mathlib.Data.List.Basic

/-!
# Interleavings and their histories

A system of threads is a partial step function: an action is taken by some
thread, and has no result in a state in which that thread cannot take it.  A run
is a list of actions.  `Each` states a property of every event of a history
together with what happened before it.
-/

set_option autoImplicit false

universe u v

variable {σ : Type u} {α : Type v}

/-! ## Runs -/

/-- The state after the actions, if all of them can be taken. -/
def runActions (step : σ → α → Option σ) : List α → σ → Option σ
  | [], s => some s
  | a :: as, s => (step s a).bind (runActions step as)

/-- Every action of the run is taken in a state in which `C` holds of it. -/
def RunMeets (step : σ → α → Option σ) (C : σ → α → Prop) : List α → σ → Prop
  | [], _ => True
  | a :: as, s => C s a ∧ ∀ s', step s a = some s' → RunMeets step C as s'

section Runs

variable {step : σ → α → Option σ} {C : σ → α → Prop} {I : σ → Prop}

theorem runActions_append (as bs : List α) (s : σ) :
    runActions step (as ++ bs) s = (runActions step as s).bind (runActions step bs) := by
  induction as generalizing s with
  | nil => rfl
  | cons a as ih =>
      simp only [List.cons_append, runActions, Option.bind_assoc]
      cases step s a with
      | none => rfl
      | some t => exact ih t

/-- An invariant of the steps that meet a condition holds after every run of them. -/
theorem run_invariant (hstep : ∀ s a s', I s → C s a → step s a = some s' → I s') {as : List α}
    {s s' : σ} (hs : I s) (hmeets : RunMeets step C as s) (hrun : runActions step as s = some s') :
    I s' := by
  induction as generalizing s with
  | nil =>
      obtain rfl : s = s' := by simpa [runActions] using hrun
      exact hs
  | cons a as ih =>
      obtain ⟨t, ht, hrest⟩ := Option.bind_eq_some_iff.mp hrun
      exact ih (hstep s a t hs hmeets.1 ht) (hmeets.2 t ht) hrest

theorem runActions_of_step (hback : ∀ s a s', step s a = some s' → I s' → I s) {as : List α}
    {s s' : σ} (hrun : runActions step as s = some s') (h : I s') : I s := by
  induction as generalizing s with
  | nil =>
      obtain rfl : s = s' := by simpa [runActions] using hrun
      exact h
  | cons a as ih =>
      obtain ⟨t, ht, hrest⟩ := Option.bind_eq_some_iff.mp hrun
      exact hback s a t ht (ih hrest)

theorem RunMeets.and {P : σ → α → Prop} {as : List α} {s : σ} (hP : RunMeets step P as s)
    (hC : RunMeets step C as s) : RunMeets step (fun s a ↦ P s a ∧ C s a) as s := by
  induction as generalizing s with
  | nil => trivial
  | cons a as ih => exact ⟨⟨hP.1, hC.1⟩, fun s' hs' ↦ ih (hP.2 s' hs') (hC.2 s' hs')⟩

/-- If a property that is never regained holds at the end of a run, and every
step that keeps it meets the condition, then the run meets the condition. -/
theorem runMeets_of_runActions {P : σ → α → Prop} {D : σ → Prop}
    (hstep : ∀ s a s', I s → P s a → C s a → step s a = some s' → I s')
    (hback : ∀ s a s', step s a = some s' → D s' → D s)
    (hmeets : ∀ s a s', I s → P s a → step s a = some s' → D s' → C s a) {as : List α} {s s' : σ}
    (hs : I s) (hP : RunMeets step P as s) (hrun : runActions step as s = some s') (h : D s') :
    RunMeets step C as s := by
  induction as generalizing s with
  | nil => trivial
  | cons a as ih =>
      obtain ⟨t, ht, hrest⟩ := Option.bind_eq_some_iff.mp hrun
      have hC := hmeets s a t hs hP.1 ht (runActions_of_step hback hrest h)
      refine ⟨hC, fun t' ht' ↦ ?_⟩
      obtain rfl : t = t' := Option.some.inj (ht.symm.trans ht')
      exact ih (hstep s a t hs hP.1 hC ht) (hP.2 t ht) hrest

instance decidableRunMeets [∀ s a, Decidable (C s a)] :
    (as : List α) → (s : σ) → Decidable (RunMeets step C as s)
  | [], _ => isTrue trivial
  | a :: as, s =>
    have := decidableRunMeets as
    inferInstanceAs (Decidable (C s a ∧ ∀ s' ∈ step s a, RunMeets step C as s'))

theorem runMeets_of_forall {as : List α} (h : ∀ a ∈ as, ∀ s, C s a) (s : σ) :
    RunMeets step C as s := by
  induction as generalizing s with
  | nil => trivial
  | cons a as ih =>
      exact ⟨h a List.mem_cons_self s, fun s' _ ↦ ih (fun b hb ↦ h b (List.mem_cons_of_mem a hb)) s'⟩

theorem runMeets_append {as bs : List α} {s : σ} (has : RunMeets step C as s)
    (hbs : ∀ s', runActions step as s = some s' → RunMeets step C bs s') :
    RunMeets step C (as ++ bs) s := by
  induction as generalizing s with
  | nil => exact hbs s rfl
  | cons a as ih =>
      refine ⟨has.1, fun s' hs' ↦ ih (has.2 s' hs') fun s'' hs'' ↦ hbs s'' ?_⟩
      simp [runActions, hs', hs'']

/-- The first action of a run that does not meet the condition. -/
theorem exists_of_not_runMeets {as : List α} {s : σ} (h : ¬RunMeets step C as s) :
    ∃ pre a post t, as = pre ++ a :: post ∧ runActions step pre s = some t ∧ ¬C t a := by
  induction as generalizing s with
  | nil => exact absurd trivial h
  | cons a as ih =>
      by_cases ha : C s a
      · have hrest : ∃ s', step s a = some s' ∧ ¬RunMeets step C as s' := by
          by_contra hall
          push Not at hall
          exact h ⟨ha, hall⟩
        obtain ⟨s', hs', hnot⟩ := hrest
        obtain ⟨pre, b, post, t, rfl, hpre, hb⟩ := ih hnot
        exact ⟨a :: pre, b, post, t, rfl, by simp [runActions, hs', hpre], hb⟩
      · exact ⟨[], a, as, s, rfl, rfl, ha⟩

end Runs

/-! ## Histories -/

/-- `P` holds of each event of the history and the events before it. -/
def Each (P : List α → α → Prop) (h : List α) : Prop :=
  ∀ pre e post, h = pre ++ e :: post → P pre e

namespace Each

variable {P Q : List α → α → Prop} {h : List α} {e : α}

theorem nil : Each P [] := fun pre e post heq ↦ by
  simp at heq

theorem concat (hh : Each P h) (he : P h e) : Each P (h ++ [e]) := by
  intro pre e' post heq
  rcases List.eq_nil_or_concat post with rfl | ⟨init, last, rfl⟩
  · obtain ⟨rfl, hlast⟩ := List.append_inj' heq rfl
    obtain rfl : e = e' := by simpa using hlast
    exact he
  · have heq' : h ++ [e] = (pre ++ e' :: init) ++ [last] := by
      rw [heq]
      simp
    exact hh pre e' init (List.append_inj' heq' rfl).1

theorem mono (hh : Each P h) (hPQ : ∀ pre e, P pre e → Q pre e) : Each Q h :=
  fun pre e post heq ↦ hPQ pre e (hh pre e post heq)

theorem of_append {h' : List α} (hh : Each P (h ++ h')) : Each P h := fun pre e post heq ↦
  hh pre e (post ++ h') (by simp [heq])

theorem last (hh : Each P (h ++ [e])) : P h e :=
  hh h e [] rfl

end Each
