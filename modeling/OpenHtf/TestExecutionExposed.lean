import OpenHtf.TestExecutionOwner

/-!
# Tests that cannot be executed again

When `_executor` of a test is set and nobody executes the test, `execute` raises for
ever.  Which exceptions leave it so.
-/

set_option autoImplicit false

namespace OpenHtf.TestExecution

section Exposed

variable {θ τ : Type} [DecidableEq θ] [DecidableEq τ] {callbacks : τ → ℕ} {s s' : State θ τ} {k main : θ}
  {pc' : Pc τ} {t : τ} {as : List (Action θ τ)}

/-- An exception at this stage ends the call of `execute`, and `_executor` is kept. -/
def Stage.exposed : Stage → Bool
  | .registering | .starting | .unlocking | .started | .deleting | .closing | .clearing => true
  | _ => false

omit [DecidableEq θ] [DecidableEq τ] in
theorem owns_raised {p : Stage} {t : τ} {e : ℕ} {x : Bool} (keyboard : Bool) :
    ((Pc.owning p t e x).raised keyboard).owns = if p.exposed then none else some t := by
  cases p <;> rfl

/-- The test is being executed when it has an executor. -/
def Kept (t : τ) (s : State θ τ) : Prop := ∀ e, s.executor t = some e → ∃ k, (s.pc k).owns = some t

omit [DecidableEq τ] in
theorem Kept.setPc (h : Kept t s) (hexecutor : s'.executor = s.executor)
    (hpc : s'.pc = Function.update s.pc k pc') (howns : (s.pc k).owns = some t → pc'.owns = some t) :
    Kept t s' := by
  intro e he
  rw [hexecutor] at he
  obtain ⟨j, hj⟩ := h e he
  refine ⟨j, ?_⟩
  rw [hpc]
  by_cases hjk : j = k
  · subst hjk
    rw [Function.update_self]
    exact howns hj
  · rwa [Function.update_of_ne hjk]

/-- An exception reaches `k` not at an exposed stage. -/
theorem Kept.raiseIn (h : Kept t s) {keyboard : Bool}
    (hsafe : ∀ p e x, s.pc k = .owning p t e x → p.exposed = false) : Kept t (s.raiseIn k keyboard) := by
  have howns (ht : (s.pc k).owns = some t) : ((s.pc k).raised keyboard).owns = some t := by
    cases hpc : s.pc k with
    | owning p u e x =>
        rw [hpc] at ht
        obtain rfl : u = t := Option.some.inj ht
        rw [owns_raised, hsafe p e x hpc]
        rfl
    | _ =>
        rw [hpc] at ht
        cases ht
  unfold State.raiseIn
  split
  · exact h.setPc rfl rfl howns
  · exact h.setPc rfl rfl howns

theorem Kept.stageStep (h : Kept t s) (hinv : OwnInv callbacks s) {p : Stage} {u : τ} {e : ℕ} {x : Bool}
    (hk : s.pc k = .owning p u e x) (hstep : stageStep callbacks k u e x s p = some s') : Kept t s' := by
  have hexecutor := hinv.executor k p u e x hk
  have hon (p' : Stage) (x' : Bool) (ht : (s.pc k).owns = some t) : (Pc.owning p' u e x').owns = some t := by
    rw [hk] at ht
    exact ht
  cases p with
  | registering | unlocking | started =>
      obtain rfl := Option.some.inj hstep
      exact h.setPc rfl rfl (hon _ _)
  | starting | finalizing =>
      simp only [TestExecution.stageStep, withExecutor_of_some hexecutor, Option.some.injEq] at hstep
      subst hstep
      exact h.setPc rfl rfl (hon _ _)
  | waiting | interrupted | closing =>
      simp only [TestExecution.stageStep, withExecutor_of_some hexecutor, Option.ite_none_right_eq_some,
        Option.some.injEq] at hstep
      obtain ⟨-, rfl⟩ := hstep
      exact h.setPc rfl rfl (hon _ _)
  | outputting n =>
      obtain rfl := Option.some.inj hstep
      split
      · exact h.setPc rfl rfl (hon _ _)
      · exact h.setPc rfl rfl (hon _ _)
  | deleting =>
      have hmem : s.instances.any (·.any (·.1 = s.executor u)) = true := by
        rw [List.any_eq_true]
        exact ⟨_, hinv.listed k _ u e x hk rfl, by simp [hexecutor]⟩
      simp only [TestExecution.stageStep, hmem, if_true, Option.some.injEq] at hstep
      subst hstep
      exact h.setPc rfl rfl (hon _ _)
  | clearing =>
      have hclear {s' : State θ τ} (hs' : s'.executor = Function.update s.executor u none)
          (hpc : s'.pc = Function.update s.pc k .idle) : Kept t s' := by
        intro e' ht
        rw [hs'] at ht
        by_cases hut : t = u
        · subst hut
          rw [Function.update_self] at ht
          cases ht
        · rw [Function.update_of_ne hut] at ht
          obtain ⟨j, hj⟩ := h e' ht
          have hjk : j ≠ k := by
            rintro rfl
            rw [hk] at hj
            exact hut (Option.some.inj hj).symm
          exact ⟨j, by rwa [hpc, Function.update_of_ne hjk]⟩
      obtain rfl := Option.some.inj hstep
      cases x
      · exact hclear rfl rfl
      · exact hclear rfl rfl

theorem Kept.codeStep (h : Kept t s) (hinv : OwnInv callbacks s) (hstep : codeStep callbacks k s = some s') :
    Kept t s' := by
  have hraise (hno : (s.pc k).owns = none) : Kept t (s.raiseIn k false) :=
    h.raiseIn fun p e x hk ↦ by simp [hk, Pc.owns] at hno
  unfold TestExecution.codeStep at hstep
  cases hpc : s.pc k with
  | idle => simp [hpc] at hstep
  | state p u =>
      simp only [hpc, Option.map_eq_some_iff] at hstep
      obtain ⟨r, hr, rfl⟩ := hstep
      have hout {s' : State θ τ} {pc' : Pc τ} (hs' : s'.executor = s.executor)
          (hpc' : s'.pc = Function.update s.pc k pc') : Kept t s' :=
        h.setPc hs' hpc' fun ht ↦ by simp [hpc, Pc.owns] at ht
      obtain ⟨rfl, -, rfl⟩ | ⟨rfl, rfl⟩ | ⟨-, -, rfl | rfl⟩ | ⟨e, -, -, rfl | ⟨p', -, -, rfl⟩⟩ :=
        sectionStep_cases hr
      · exact hout rfl rfl
      · exact hout rfl rfl
      · exact hraise (by rw [hpc]; rfl)
      · exact hout rfl rfl
      · exact hout rfl rfl
      · exact hout rfl rfl
  | acquiring u =>
      simp only [hpc, Option.ite_none_right_eq_some, Option.some.injEq] at hstep
      obtain ⟨-, rfl⟩ := hstep
      exact h.setPc rfl rfl fun ht ↦ by simp [hpc, Pc.owns] at ht
  | checking u =>
      simp only [hpc, Option.some.injEq] at hstep
      subst hstep
      split
      · exact h.setPc rfl rfl fun ht ↦ by simp [hpc, Pc.owns] at ht
      · exact hraise (by rw [hpc]; rfl)
  | creating u =>
      simp only [hpc, Option.some.injEq] at hstep
      subst hstep
      intro e he
      by_cases hut : t = u
      · exact ⟨k, by rw [State.setPc_self, hut]; rfl⟩
      · obtain ⟨j, hj⟩ := h e ((Function.update_of_ne hut ..).symm.trans he)
        have hjk : j ≠ k := by
          rintro rfl
          simp [hpc, Pc.owns] at hj
        exact ⟨j, by rw [State.setPc_of_ne _ hjk]; exact hj⟩
  | owning p u e raised =>
      simp only [hpc] at hstep
      exact h.stageStep hinv hpc hstep

/-- No exception ends a call of `execute` on the test at an exposed stage. -/
def Sheltered (t : τ) (main : θ) (callbacks : τ → ℕ) (s : State θ τ) (a : Action θ τ) : Prop :=
  ∀ s' k p e x, step main callbacks s a = some s' → s.pc k = .owning p t e x → p.exposed = true →
    a = .raise k ∨ a = .handler ∧ k = main → s'.pc k ≠ .idle

theorem raised_of_exposed {p : Stage} {e : ℕ} {x : Bool} {keyboard : Bool} (hk : s.pc k = .owning p t e x)
    (hp : p.exposed = true) : (s.raiseIn k keyboard).pc k = .idle := by
  have hraised : (s.pc k).raised keyboard = .idle := by
    rw [hk]
    cases p <;> first
      | rfl
      | cases hp
  unfold State.raiseIn
  split <;> rw [State.setPc_self, hraised]

theorem Kept.handlerStep (h : Kept t s) {f : Frame τ} {rest : List (Frame τ)}
    (hstep : handlerStep main s f rest = some s')
    (hsafe : ∀ p e x, s.pc main = .owning p t e x → p.exposed = true → s'.pc main ≠ .idle) : Kept t s' := by
  have hraise {keyboard : Bool} {u : State θ τ} (hexecutor : u.executor = s.executor) (hpc : u.pc = s.pc)
      (hs' : raiseMain main keyboard u = s') : Kept t s' := by
    have hu : Kept t { u with frames := [], lock := fun t ↦ if u.lock t = some .handler then none else u.lock t } := by
      intro e he
      obtain ⟨k, hk⟩ := h e (hexecutor ▸ he)
      exact ⟨k, hpc ▸ hk⟩
    subst hs'
    refine hu.raiseIn fun p e x hk ↦ ?_
    by_contra hp
    have hp : p.exposed = true := by simpa using hp
    exact hsafe p e x (hpc ▸ hk) hp (raised_of_exposed hk hp)
  unfold TestExecution.handlerStep at hstep
  cases hf : f.pc with
  | entered =>
      simp only [hf, Option.some.injEq] at hstep
      split at hstep
      · exact hraise rfl rfl hstep
      · subst hstep
        exact h
  | iterating i n =>
      simp only [hf, Option.some.injEq] at hstep
      split at hstep
      · exact hraise rfl rfl hstep
      · split at hstep
        · subst hstep
          exact h
        · subst hstep
          exact h
  | aborting p u i n =>
      simp only [hf, Option.map_eq_some_iff] at hstep
      obtain ⟨r, hr, hs'⟩ := hstep
      obtain ⟨rfl, -, rfl⟩ | ⟨rfl, rfl⟩ | ⟨-, -, rfl | rfl⟩ | ⟨e, -, -, rfl | ⟨p', -, -, rfl⟩⟩ :=
        sectionStep_cases hr
      · subst hs'
        exact h
      · subst hs'
        exact h
      · exact hraise rfl rfl hs'
      · subst hs'
        exact h
      · subst hs'
        exact h
      · subst hs'
        exact h
  | looped =>
      simp only [hf, Option.some.injEq] at hstep
      split at hstep
      · subst hstep
        exact h
      · exact hraise (u := { s with handledSigintOnce := true }) rfl rfl hstep

theorem kept_step {a : Action θ τ} (h : Kept t s) (hinv : OwnInv callbacks s)
    (hsafe : Sheltered t main callbacks s a) (hstep : step main callbacks s a = some s') : Kept t s' := by
  have hsafe' (k : θ) (hk : a = .raise k ∨ a = .handler ∧ k = main) (p : Stage) (e : ℕ) (x : Bool)
      (hpc : s.pc k = .owning p t e x) (hp : p.exposed = true) : s'.pc k ≠ .idle :=
    hsafe s' k p e x hstep hpc hp hk
  cases a with
  | execute k u | state k u =>
      simp only [step, Option.ite_none_right_eq_some, Option.some.injEq] at hstep
      obtain ⟨⟨hidle, -⟩, rfl⟩ := hstep
      exact h.setPc rfl rfl fun ht ↦ by simp [hidle, Pc.owns] at ht
  | step k =>
      simp only [step, Option.ite_none_left_eq_some] at hstep
      exact h.codeStep hinv hstep.2
  | raise k =>
      simp only [step, Option.ite_none_left_eq_some, Option.some.injEq] at hstep
      obtain ⟨-, rfl⟩ := hstep
      refine h.raiseIn fun p e x hk ↦ ?_
      by_contra hp
      have hp : p.exposed = true := by simpa using hp
      exact hsafe' k (.inl rfl) p e x hk hp (raised_of_exposed hk hp)
  | finish e passed =>
      simp only [step, Option.ite_none_right_eq_some, Option.some.injEq] at hstep
      obtain ⟨-, rfl⟩ := hstep
      exact h
  | sigint =>
      obtain rfl := Option.some.inj hstep
      exact h
  | handler =>
      simp only [step] at hstep
      split at hstep
      · cases hstep
      · exact h.handlerStep hstep (hsafe' main (.inr ⟨rfl, rfl⟩))

/-- If a test has an executor and nobody is executing it, so that it cannot be executed
again, then an exception ended a call of `execute` on it after that had made its
executor and before the `try`, or in the last `finally` clause. -/
theorem exists_exposed (hrun : runActions (step main callbacks) as {} = some s) {e : ℕ}
    (ht : s.executor t = some e) (hno : ∀ k, (s.pc k).owns ≠ some t) :
    ∃ pre a post u u' k p e' x, as = pre ++ a :: post ∧ runActions (step main callbacks) pre {} = some u ∧
      step main callbacks u a = some u' ∧ (a = .raise k ∨ a = .handler ∧ k = main) ∧
      u.pc k = .owning p t e' x ∧ p.exposed = true ∧ u'.pc k = .idle := by
  have hunsafe : ¬RunMeets (step main callbacks) (Sheltered t main callbacks) as {} := by
    intro hsafe
    have hkept : Kept t ({} : State θ τ) := by simp [Kept]
    have hs := run_invariant (I := fun s ↦ (s.Locked ∧ OwnInv callbacks s) ∧ Kept t s)
      (fun _ _ _ h hsafe hstep ↦ ⟨⟨locked_step h.1.1 hstep, ownInv_step h.1.2 h.1.1 hstep⟩,
        kept_step h.2 h.1.2 hsafe hstep⟩) ⟨⟨locked_initial, ownInv_initial callbacks⟩, hkept⟩ hsafe hrun
    obtain ⟨k, hk⟩ := hs.2 e ht
    exact hno k hk
  obtain ⟨pre, a, post, u, rfl, hpre, ha⟩ := exists_of_not_runMeets hunsafe
  simp only [Sheltered, not_forall, not_not] at ha
  obtain ⟨u', k, p, e', x, hstep, hpc, hp, hwho, hidle⟩ := ha
  exact ⟨pre, a, post, u, u', k, p, e', x, rfl, hpre, hstep, hwho, hpc, hp, hidle⟩

/-- The interrupt comes between the locked section and the `try`. -/
theorem exists_exposed_interrupted :
    let run : List (Action Bool Unit) :=
      [.execute true (), .step true, .step true, .step true, .step true, .step true, .step true, .sigint,
        .handler, .handler, .handler, .handler, .handler, .handler, .handler, .handler, .handler]
    ∃ pre a post u u' k p e' x, run = pre ++ a :: post ∧
      runActions (step true (fun _ ↦ 0)) pre {} = some u ∧ step true (fun _ ↦ 0) u a = some u' ∧
      (a = .raise k ∨ a = .handler ∧ k = true) ∧
      u.pc k = .owning p () e' x ∧ p.exposed = true ∧ u'.pc k = .idle := by
  intro run
  have hrun : runActions (step true (fun _ ↦ 0)) run {} = some _ := rfl
  refine exists_exposed hrun (e := 0) rfl fun k ↦ ?_
  cases k <;> decide

end Exposed

end OpenHtf.TestExecution
