import OpenHtf.PhaseRecords

/-!
# Whose failure stops the test

With `stop_on_first_failure`, `_execute_phase` looks at the last record of the
test.  That is a record of the phase only when the phase has written one.
-/

set_option autoImplicit false

namespace OpenHtf

open Act TestExecutor

variable {env : Env} {p : PhaseDescriptor} {rec : Option SubtestRecord}

/-! ## A run of a phase -/

/-- FAIL_SUBTEST is for phases of a subtest. -/
def FailsInside (rec : Option SubtestRecord) (o : PhaseExecutionOutcome) : Prop :=
  o = .result .FAIL_SUBTEST → rec.isSome = true

theorem FailsInside.of_resultFrom {o o' : PhaseExecutionOutcome} (h : FailsInside rec o)
    (hfrom : ResultFrom o o') : FailsInside rec o' := by
  rcases hfrom with rfl | rfl | ⟨e, rfl⟩
  · exact h
  · exact nofun
  · exact nofun

/-- No phase is running, and `abort` does not change that. -/
theorem enterPhase_quiet {s : RunState} (h : s.sync.runningPhaseState = false) :
    wp (enterPhase env p) (fun _ s' ↦ s'.testState = s.testState) (fun _ _ ↦ False) s := by
  simp only [enterPhase, timeMillis, noteStep, wp_bind, wp_ite]
  refine wp_shared_intro fun i _ hview ↦ ?_
  have hquiet : (Sync.enterRunningPhase i).1 = false := hview.runningPhaseState h
  simp only [hquiet, Bool.false_eq_true, if_false, wp_callUser, wp_modify]
  rfl

theorem leavePhase_quiet {s : RunState} {o : PhaseExecutionOutcome} (hr : s.result = some o) :
    wp (leavePhase env)
      (fun _ s' ↦ s'.sync.runningPhaseState = false ∧
        (∃ r, s'.testRecord.phases = s.testRecord.phases ++ [r]) ∧
        ∃ o', s'.result = some o' ∧ ResultFrom o o')
      (fun _ s' ↦ s'.Untamed) s := by
  have hresult : s.HasResult := by rw [RunState.HasResult, hr]; rfl
  simp only [leavePhase, wp_bind, wp_catching, noteStep, wp_modify, wp_raise]
  refine ((safe_finalizePhase env s hresult).and ((endFrame_finalizePhase env).wp s)).mono ?_ ?_
  · rintro - s₁ ⟨-, hf⟩
    refine ⟨rfl, ⟨s₁.phaseState.phaseRecord, ?_⟩, hf.result o hr⟩
    exact congrArg (· ++ [s₁.phaseState.phaseRecord]) hf.phases
  · rintro e s₁ ⟨hu, -⟩
    exact Untamed.mono hu (List.prefix_append _ _)

theorem joinOrDie_quiet {t : PhaseThread} {s : RunState} :
    wp (joinOrDie env p t rec) (fun o s' ↦ s'.testState = s.testState ∧ FailsInside rec o)
      (fun _ _ ↦ False) s := by
  simp only [joinOrDie, noteStep, wp_bind, wp_callUser, wp_gets, wp_modify, wp_shared]
  split
  · rename_i o ho
    exact ⟨rfl, fun hf ↦ isSome_of_threadOutcome (hf ▸ ho)⟩
  · exact ⟨rfl, by simp [FailsInside]⟩

/-- A run of a phase writes one record, whatever `abort` does in the meantime. -/
theorem runPhaseOnce_quiet {s : RunState} (last : Bool) (h : s.sync.runningPhaseState = false) :
    wp (runPhaseOnce env p last rec)
      (fun o s' ↦ s'.sync.runningPhaseState = false ∧ FailsInside rec o ∧
        ∃ r, s'.testRecord.phases = s.testRecord.phases ++ [r])
      (fun _ s' ↦ s'.Untamed) s := by
  unfold runPhaseOnce
  rw [wp_bind]
  refine (enterPhase_quiet h).mono ?_ fun _ _ hf ↦ hf.elim
  intro _ s₁ ht₁
  have hphases : s₁.testRecord.phases = s.testRecord.phases := congrArg (fun t ↦ t.testRecord.phases) ht₁
  simp only [wp_bind, wp_modify, wp_shared, wp_ite]
  split
  · refine (leavePhase_quiet (o := .terminated) rfl).mono ?_ fun _ _ hu ↦ hu
    rintro - s₂ ⟨hquiet, ⟨r, hr⟩, -⟩
    exact ⟨hquiet, nofun, r, hr.trans (congrArg (· ++ [r]) hphases)⟩
  · refine joinOrDie_quiet.mono ?_ fun _ _ hf ↦ hf.elim
    rintro o s₂ ⟨ht₂, hinside⟩
    refine (leavePhase_quiet (o := o) rfl).mono ?_ fun _ _ hu ↦ hu
    rintro - s₃ ⟨hquiet, ⟨r, hr⟩, o', ho', hfrom⟩
    have hphases₃ : s₃.testRecord.phases = s.testRecord.phases ++ [r] := by
      rw [hr, ← hphases]
      exact congrArg (fun t ↦ t.testRecord.phases ++ [r]) ht₂
    split
    · exact ⟨hquiet, nofun, r, hphases₃⟩
    · rw [wp_gets]
      dsimp only
      rw [show s₃.phaseState.phaseRecord.result = some o' from ho']
      exact ⟨hquiet, hinside.of_resultFrom hfrom, r, hphases₃⟩

theorem executePhaseOnce_quiet {s : RunState} (last : Bool) (h : s.sync.runningPhaseState = false) :
    wp (executePhaseOnce env p last rec)
      (fun o s' ↦ s'.sync.runningPhaseState = false ∧ FailsInside rec o ∧
        if p.options.declines s.moment then KeptOut s o s'
        else ∃ r, s'.testRecord.phases = s.testRecord.phases ++ [r])
      (fun _ s' ↦ s'.Untamed) s := by
  refine wp_executePhaseOnce ?_ (fun _ _ _ _ hu ↦ hu) ?_
  · intro hdec o s' ho
    rw [if_pos hdec]
    exact ⟨by rw [ho.sync]; exact h, ho.ne_failSubtest.elim, ho⟩
  · intro hdec s₁ hsync htest
    have hphases : s₁.testRecord.phases = s.testRecord.phases := congrArg (·.testRecord.phases) htest
    simp only [hdec, Bool.false_eq_true, if_false, ← hphases]
    exact runPhaseOnce_quiet last (hsync ▸ h)

/-! ## Rounds -/

/-- The round that begins here sees that the phase executor is stopping. -/
def Sync.seesStop (env : Env) (s : Sync) : Bool := (s.interfere env.schedule).stopping

/-- The shared state when a round begins after one in which `run_if` kept the phase out. -/
def Sync.afterKeptOut (env : Env) (s : Sync) : Sync :=
  ((Sync.stoppingIsSet (s.interfere env.schedule)).2.setStartPending false).repeatPhase

/-- A round ends at once, or it goes on after `_execute_phase_once`. -/
theorem wp_executePhaseRound_quiet {s : RunState} {last : Bool} {next : Exec PhaseExecutionOutcome}
    {Q : PhaseExecutionOutcome → RunState → Prop} {E : PyExc → RunState → Prop}
    (h : s.sync.runningPhaseState = false) (hE : ∀ e s', s'.Untamed → E e s')
    (hstop : s.sync.seesStop env = true → ∀ i, i.runningPhaseState = false →
      Q .timeout { s with sync := i })
    (hgo : s.sync.seesStop env = false → ∀ o s', s'.sync.runningPhaseState = false →
      FailsInside rec o →
      (if p.options.declines s.moment then
        KeptOut { s with sync := (Sync.stoppingIsSet (s.sync.interfere env.schedule)).2 } o s'
      else ∃ r, s'.testRecord.phases = s.testRecord.phases ++ [r]) →
      wp (continueRound p last next o) Q E s') :
    wp (executePhaseRound env p rec last next) Q E s := by
  have hview := Sync.sameView_interfere env.schedule s.sync
  have hquiet := hview.runningPhaseState h
  unfold executePhaseRound
  rw [wp_bind, wp_shared]
  dsimp only
  rw [wp_ite]
  split
  · rename_i hset
    exact hstop hset _ hquiet
  · rename_i hset
    rw [wp_bind]
    refine (executePhaseOnce_quiet last ?_).mono ?_ hE
    · exact hquiet
    · exact fun o s' ⟨hs', hinside, ho⟩ ↦ hgo (Bool.eq_false_iff.mpr hset) o s' hs' hinside ho

/-- No attempt is made from here on: the stop is seen, or `run_if` keeps the phase out,
and a phase that is to be repeated all the same stays out again. -/
def staysOut (env : Env) (o : PhaseOptions) : ℕ → ℕ → Sync → Bool
  | 0, moment, s => s.seesStop env || o.declines moment
  | repeatsLeft + 1, moment, s =>
      s.seesStop env || (o.declines moment &&
        (!o.forceRepeat || staysOut env o repeatsLeft (moment + 1) (s.afterKeptOut env)))

/-- The last record is one after the first `n`, or it does not say FAIL. -/
def Accounted (n : ℕ) (s : RunState) : Prop :=
  ∃ init r, s.testRecord.phases = init ++ [r] ∧
    (n ≤ init.length ∨ (n = init.length + 1 ∧ r.outcome ≠ some .FAIL))

theorem Accounted.append {n : ℕ} {s : RunState} {init : List PhaseRecord} {r : PhaseRecord}
    (hs : s.testRecord.phases = init ++ [r]) (hn : n ≤ init.length) : Accounted n s :=
  ⟨init, r, hs, .inl hn⟩

theorem shouldRepeat_accounted {n : ℕ} {s : RunState} (o : PhaseExecutionOutcome) (last : Bool)
    (h : Accounted n s) :
    wp (shouldRepeat p o last) (fun _ s' ↦ s'.sync = s.sync ∧ Accounted n s') (fun _ _ ↦ False) s := by
  simp only [shouldRepeat, wp_ite, wp_pure]
  split_ifs
  · exact ⟨trivial, h⟩
  · exact ⟨trivial, h⟩
  · exact ⟨trivial, h⟩
  · obtain ⟨init, r, hs, hn⟩ := h
    refine (lastRepeatFailed_spec last).mono ?_ ?_
    · rintro again s' ⟨hs', init', r', hr, -, hphases⟩
      obtain ⟨rfl, hr⟩ := List.append_inj' (hr.symm.trans hs) rfl
      obtain rfl : r' = r := List.singleton_inj.mp hr
      refine ⟨hs', ?_⟩
      split at hphases
      · exact ⟨init', _, hphases, hn.imp id fun hn ↦ ⟨hn.1, by simp⟩⟩
      · exact ⟨init', r', hphases, hn⟩
    · rintro e s' ⟨-, -, hnil, -⟩
      simp [hs] at hnil
  · exact ⟨trivial, h⟩

theorem continueRound_accounted {n : ℕ} {s : RunState} {last : Bool}
    {next : Exec PhaseExecutionOutcome} {o : PhaseExecutionOutcome}
    (hnext : ∀ s, s.sync.runningPhaseState = false → Accounted n s →
      wp next (fun o s' ↦ Accounted n s' ∧ FailsInside rec o) (fun _ s' ↦ s'.Untamed) s)
    (h : s.sync.runningPhaseState = false) (ha : Accounted n s) (ho : FailsInside rec o) :
    wp (continueRound p last next o) (fun o s' ↦ Accounted n s' ∧ FailsInside rec o)
      (fun _ s' ↦ s'.Untamed) s := by
  unfold continueRound
  rw [wp_bind]
  refine (shouldRepeat_accounted o last ha).mono ?_ fun _ _ hf ↦ hf.elim
  rintro again s₁ ⟨hs₁, ha₁⟩
  rw [wp_ite]
  split
  · rw [wp_bind, noteThread, wp_modify]
    have hquiet : (s₁.mapSync Sync.repeatPhase).sync.runningPhaseState = false :=
      (congrArg Sync.runningPhaseState hs₁).trans h
    exact hnext _ hquiet ha₁
  · exact ⟨ha₁, ho⟩

/-- From then on the last record is accounted for. -/
theorem executePhaseLoop_accounted {n : ℕ} (repeatsLeft : ℕ) {s : RunState}
    (h : s.sync.runningPhaseState = false) (ha : Accounted n s) :
    wp (executePhaseLoop env p rec repeatsLeft) (fun o s' ↦ Accounted n s' ∧ FailsInside rec o)
      (fun _ s' ↦ s'.Untamed) s := by
  have hround (last : Bool) (next : Exec PhaseExecutionOutcome)
      (hnext : ∀ s, s.sync.runningPhaseState = false → Accounted n s →
        wp next (fun o s' ↦ Accounted n s' ∧ FailsInside rec o) (fun _ s' ↦ s'.Untamed) s)
      (s : RunState) (h : s.sync.runningPhaseState = false) (ha : Accounted n s) :
      wp (executePhaseRound env p rec last next) (fun o s' ↦ Accounted n s' ∧ FailsInside rec o)
        (fun _ s' ↦ s'.Untamed) s := by
    refine wp_executePhaseRound_quiet h (fun _ _ hu ↦ hu) (fun _ _ _ ↦ ⟨ha, nofun⟩) ?_
    intro _ o s' hs' hinside ho
    refine continueRound_accounted hnext hs' ?_ hinside
    obtain ⟨init, r, hs, hn⟩ := ha
    split at ho
    · exact ⟨init, r, ho.phases.trans hs, hn⟩
    · obtain ⟨r', hr'⟩ := ho
      refine .append hr' ?_
      rw [hs, List.length_append, List.length_singleton]
      omega
  induction repeatsLeft generalizing s with
  | zero => exact hround true (pure .timeout) (fun _ _ ha ↦ ⟨ha, nofun⟩) s h ha
  | succ repeatsLeft ih => exact hround false _ (fun _ h ha ↦ ih h ha) s h ha

/-- A phase that is kept out goes into the next round only when it is always repeated,
or for the last record. -/
theorem continueRound_of_keptOut {s s' : RunState} {o : PhaseExecutionOutcome} {last : Bool}
    {next : Exec PhaseExecutionOutcome} (ho : KeptOut s o s') (hback : p.options.looksBack = false) :
    continueRound p last next o =
      if p.options.forceRepeat && !last then (do
        noteThread Sync.repeatPhase
        next)
      else pure o := by
  have htimeout := ho.isTimeout
  have hrepeat := ho.isRepeat
  cases hforce : p.options.forceRepeat with
  | true =>
      simp only [continueRound, shouldRepeat, htimeout, hrepeat, hforce]
      cases last <;> rfl
  | false =>
      have hfail : p.options.repeatOnMeasurementFail = false := by
        simpa [PhaseOptions.looksBack, hforce] using hback
      simp only [continueRound, shouldRepeat, htimeout, hrepeat, hforce, hfail]
      cases last <;> rfl

/-- The phase makes an attempt. -/
theorem executePhaseLoop_attempts_of_not_staysOut (repeatsLeft : ℕ) {s : RunState}
    (h : s.sync.runningPhaseState = false)
    (hin : staysOut env p.options repeatsLeft s.moment s.sync = false) :
    wp (executePhaseLoop env p rec repeatsLeft)
      (fun o s' ↦ Accounted s.testRecord.phases.length s' ∧ FailsInside rec o)
      (fun _ s' ↦ s'.Untamed) s := by
  induction repeatsLeft generalizing s with
  | zero =>
      simp only [staysOut, Bool.or_eq_false_iff] at hin
      refine wp_executePhaseRound_quiet h (fun _ _ hu ↦ hu) ?_ ?_
      · exact fun hset ↦ absurd (hset.symm.trans hin.1) (by decide)
      · intro _ o s' hs' hinside ho
        rw [if_neg (Bool.eq_false_iff.mp hin.2)] at ho
        obtain ⟨r, hr⟩ := ho
        exact continueRound_accounted (fun _ _ ha ↦ ⟨ha, nofun⟩) hs' (.append hr (Nat.le_refl _)) hinside
  | succ repeatsLeft ih =>
      simp only [staysOut, Bool.or_eq_false_iff] at hin
      refine wp_executePhaseRound_quiet h (fun _ _ hu ↦ hu) ?_ ?_
      · exact fun hset ↦ absurd (hset.symm.trans hin.1) (by decide)
      intro _ o s' hs' hinside ho
      split at ho
      · rename_i hdec
        have hagain := hin.2
        rw [hdec, Bool.true_and, Bool.or_eq_false_iff, Bool.not_eq_false'] at hagain
        obtain ⟨hforce, hagain⟩ := hagain
        have hback : p.options.looksBack = false := by simp [PhaseOptions.looksBack, hforce]
        rw [continueRound_of_keptOut ho hback, if_pos (by simp [hforce]), wp_bind, noteThread, wp_modify]
        have hphases : s'.testRecord.phases = s.testRecord.phases := ho.phases
        have hnext : staysOut env p.options repeatsLeft (s'.mapSync Sync.repeatPhase).moment
            (s'.mapSync Sync.repeatPhase).sync = false := by
          rw [← hagain]
          exact congrArg₂ (staysOut env p.options repeatsLeft) ho.moment
            (congrArg Sync.repeatPhase ho.sync)
        refine hphases ▸ ih (s := s'.mapSync Sync.repeatPhase) ?_ hnext
        exact hs'
      · obtain ⟨r, hr⟩ := ho
        exact continueRound_accounted (fun _ h ha ↦ executePhaseLoop_accounted repeatsLeft h ha) hs'
          (.append hr (Nat.le_refl _)) hinside

/-- The record that `_should_repeat` looks at is not changed when there is none, or when
no round is left. -/
theorem continueRound_keptOut_looksBack {s s' : RunState} {o : PhaseExecutionOutcome} {last : Bool}
    {next : Exec PhaseExecutionOutcome} (ho : KeptOut s o s') (hback : p.options.looksBack = true)
    (hnone : s.testRecord.phases = [] ∨ last = true) :
    wp (continueRound p last next o)
      (fun o s' ↦ s'.testRecord.phases = s.testRecord.phases ∧ o ≠ .result .STOP)
      (fun _ _ ↦ True) s' := by
  rw [continueRound_of_looksBack hback ho.isTimeout ho.isRepeat, wp_bind]
  refine (lastRepeatFailed_spec last).mono ?_ fun _ _ _ ↦ trivial
  rintro failed s₂ ⟨-, init, r, hinit, -, hphases₂⟩
  rcases hnone with hnil | rfl
  · simp [ho.phases, hnil] at hinit
  · rw [if_neg (by simp), ← hinit, ho.phases] at hphases₂
    simp only [Bool.not_true, Bool.and_false, Bool.false_eq_true, if_false]
    exact ⟨hphases₂, ho.ne_stop⟩

/-- The phase makes no attempt, and leaves a last record that says FAIL as it is. -/
theorem executePhaseLoop_of_staysOut (repeatsLeft : ℕ) {s : RunState}
    (h : s.sync.runningPhaseState = false)
    (hout : staysOut env p.options repeatsLeft s.moment s.sync = true)
    (hlast : ∀ r ∈ s.testRecord.phases.getLast?, r.outcome = some .FAIL ∧
      ¬(p.options.looksBack = true ∧ 0 < repeatsLeft ∧ s.sync.seesStop env = false)) :
    wp (executePhaseLoop env p rec repeatsLeft)
      (fun o s' ↦ s'.testRecord.phases = s.testRecord.phases ∧ o ≠ .result .STOP)
      (fun _ _ ↦ True) s := by
  induction repeatsLeft generalizing s with
  | zero =>
      refine wp_executePhaseRound_quiet h (fun _ _ _ ↦ trivial) (fun _ _ _ ↦ ⟨rfl, nofun⟩) ?_
      intro hgo o s' hs' _ ho
      have hdec : p.options.declines s.moment = true := by simpa [staysOut, hgo] using hout
      rw [if_pos hdec] at ho
      cases hback : p.options.looksBack with
      | true => exact (continueRound_keptOut_looksBack ho hback (.inr rfl) :)
      | false =>
          rw [continueRound_of_keptOut ho hback, if_neg (by simp)]
          exact ⟨ho.phases, ho.ne_stop⟩
  | succ repeatsLeft ih =>
      refine wp_executePhaseRound_quiet h (fun _ _ _ ↦ trivial) (fun _ _ _ ↦ ⟨rfl, nofun⟩) ?_
      intro hgo o s' hs' _ ho
      simp only [staysOut, hgo, Bool.false_or, Bool.and_eq_true] at hout
      obtain ⟨hdec, hout⟩ := hout
      rw [if_pos hdec] at ho
      cases hback : p.options.looksBack with
      | true =>
          have hnil : s.testRecord.phases = [] := by
            apply List.getLast?_eq_none_iff.mp
            rw [Option.eq_none_iff_forall_not_mem]
            exact fun r hr ↦ (hlast r hr).2 ⟨hback, Nat.succ_pos _, hgo⟩
          exact (continueRound_keptOut_looksBack ho hback (.inl hnil) :)
      | false =>
          rw [continueRound_of_keptOut ho hback, wp_ite]
          split
          · rename_i hforce
            rw [wp_bind, noteThread, wp_modify]
            have hphases : (s'.mapSync Sync.repeatPhase).testRecord.phases = s.testRecord.phases :=
              ho.phases
            have hnext : staysOut env p.options repeatsLeft (s'.mapSync Sync.repeatPhase).moment
                (s'.mapSync Sync.repeatPhase).sync = true := by
              have hforce : p.options.forceRepeat = true := by simpa using hforce
              rw [hforce, Bool.not_true, Bool.false_or] at hout
              rw [← hout]
              exact congrArg₂ (staysOut env p.options repeatsLeft) ho.moment
                (congrArg Sync.repeatPhase ho.sync)
            rw [← hphases] at hlast ⊢
            refine ih hs' hnext fun r hr ↦ ⟨(hlast r hr).1, fun hl ↦ ?_⟩
            simp [hback] at hl
          · exact ⟨ho.phases, ho.ne_stop⟩

/-- A last record that says FAIL is changed when `run_if` keeps the phase out. -/
theorem executePhaseLoop_of_looksBack (repeatsLeft : ℕ) {s : RunState} {init : List PhaseRecord}
    {r : PhaseRecord} (h : s.sync.runningPhaseState = false) (hs : s.testRecord.phases = init ++ [r])
    (hr : r.outcome = some .FAIL) (hback : p.options.looksBack = true)
    (hgo : s.sync.seesStop env = false) :
    wp (executePhaseLoop env p rec (repeatsLeft + 1))
      (fun o s' ↦ Accounted s.testRecord.phases.length s' ∧ FailsInside rec o)
      (fun _ s' ↦ s'.Untamed) s := by
  refine wp_executePhaseRound_quiet h (fun _ _ hu ↦ hu) ?_ ?_
  · exact fun hset ↦ absurd (hset.symm.trans hgo) (by decide)
  intro _ o s' hs' hinside ho
  split at ho
  · have hphases : s'.testRecord.phases = s.testRecord.phases := ho.phases
    rw [continueRound_of_looksBack hback ho.isTimeout ho.isRepeat, wp_bind]
    refine (lastRepeatFailed_spec false).mono ?_ ?_
    · rintro failed s₂ ⟨hsync, init', r', hinit, hfailed, hphases₂⟩
      obtain ⟨rfl, hr'⟩ := List.append_inj' (hinit.symm.trans (hphases.trans hs)) rfl
      obtain rfl : r' = r := List.singleton_inj.mp hr'
      obtain rfl : failed = true := hfailed.mpr hr
      rw [if_pos ⟨rfl, rfl⟩] at hphases₂
      rw [Bool.not_false, Bool.and_true, if_pos rfl, wp_bind, noteThread, wp_modify]
      refine executePhaseLoop_accounted repeatsLeft ?_ ⟨init', _, hphases₂, .inr ⟨?_, by simp⟩⟩
      · exact (congrArg Sync.runningPhaseState hsync).trans hs'
      · rw [hs, List.length_append, List.length_singleton]
    · rintro e s₂ ⟨-, -, hnil, -⟩
      simp [hphases, hs] at hnil
  · obtain ⟨r', hr'⟩ := ho
    exact continueRound_accounted (fun _ h ha ↦ executePhaseLoop_accounted repeatsLeft h ha) hs'
      (.append hr' (Nat.le_refl _)) hinside

/-! ## The phase as a whole -/

/-- The phase writes no record, and the last one of an earlier phase says FAIL and is
left as it is, or there is none. -/
def Misattributes (env : Env) (p : PhaseDescriptor) (s : RunState) : Prop :=
  staysOut env p.options (p.options.limit - 1).toNat s.moment s.sync = true ∧
    ∀ r ∈ s.testRecord.phases.getLast?, r.outcome = some .FAIL ∧
      ¬(p.options.looksBack = true ∧ 1 < p.options.limit ∧ s.sync.seesStop env = false)

theorem executePhase_of_misattributes {s : RunState} (h : s.sync.runningPhaseState = false)
    (hm : Misattributes env p s) :
    wp (executePhase env p rec)
      (fun o s' ↦ s'.testRecord.phases = s.testRecord.phases ∧ o ≠ .result .STOP)
      (fun _ _ ↦ True) s := by
  refine executePhaseLoop_of_staysOut _ h hm.1 fun r hr ↦ ⟨(hm.2 r hr).1, fun hl ↦ (hm.2 r hr).2 ?_⟩
  exact ⟨hl.1, by omega, hl.2.2⟩

theorem executePhase_of_not_misattributes {s : RunState} (h : s.sync.runningPhaseState = false)
    (hm : ¬Misattributes env p s) :
    wp (executePhase env p rec)
      (fun o s' ↦ Accounted s.testRecord.phases.length s' ∧ FailsInside rec o)
      (fun _ s' ↦ s'.Untamed) s := by
  unfold executePhase
  cases hout : staysOut env p.options (p.options.limit - 1).toNat s.moment s.sync with
  | false => exact executePhaseLoop_attempts_of_not_staysOut _ h hout
  | true =>
      have hlast : ∃ r ∈ s.testRecord.phases.getLast?, ¬(r.outcome = some .FAIL ∧
          ¬(p.options.looksBack = true ∧ 1 < p.options.limit ∧ s.sync.seesStop env = false)) := by
        by_contra hnone
        exact hm ⟨hout, fun r hr ↦ by_contra fun hne ↦ hnone ⟨r, hr, hne⟩⟩
      obtain ⟨r, hr, hne⟩ := hlast
      obtain ⟨init, hs⟩ := List.getLast?_eq_some_iff.mp hr
      by_cases hfail : r.outcome = some .FAIL
      · obtain ⟨hback, hlimit, hgo⟩ := Classical.not_not.mp fun hn ↦ hne ⟨hfail, hn⟩
        obtain ⟨n, hn⟩ : ∃ n, (p.options.limit - 1).toNat = n + 1 :=
          Nat.exists_eq_succ_of_ne_zero (by omega)
        rw [hn]
        exact executePhaseLoop_of_looksBack n h hs hfail hback hgo
      · exact executePhaseLoop_accounted _ h ⟨init, r, hs, .inr ⟨by simp [hs], hfail⟩⟩

theorem skipPhase_quiet {s : RunState} (h : s.sync.runningPhaseState = false) :
    wp (skipPhase env p rec) (fun _ _ ↦ True) (fun _ s' ↦ s'.Untamed) s := by
  unfold skipPhase
  rw [wp_bind]
  refine (enterPhase_quiet h).mono ?_ fun _ _ hf ↦ hf.elim
  intro _ s₁ _
  rw [wp_bind, wp_modify]
  exact (leavePhase_quiet (o := .result .SKIP) rfl).mono (fun _ _ _ ↦ trivial) fun _ _ hu ↦ hu

/-! ## The attribution -/

def Env.StopsOnFirstFailure (env : Env) : Prop :=
  (env.testOptions.stopOnFirstFailure || env.conf.stopOnFirstFailure) = true

/-- The outcome of a phase that has written these records. -/
def attributed (own : List PhaseRecord) (o : PhaseExecutionOutcome) : PhaseExecutionOutcome :=
  if own.getLast?.any (·.outcome == some .FAIL) then .result .STOP else o

/-- The phase is skipped, as its subtest has failed. -/
def World.autoSkips (w : World) (rec : Option ℕ) (inTeardown : Bool) : Bool :=
  !inTeardown && w.subtestFails rec

/-- The world when a phase has ended with the outcome `o`. -/
def World.endPhase (p : PhaseDescriptor) (rec : Option ℕ) (inTeardown : Bool)
    (o : PhaseExecutionOutcome) (s : RunState) (w : World) : World :=
  (((w.addEvent (.executing w.callstack (.phase p) inTeardown)).setRun s).addEvent
    (.ended w.callstack (.phase p) inTeardown o)).concluded o p.name rec

/-- `_execute_phase` returns, and the outcome of `execute_phase` is turned into STOP when
the last record that it has written says FAIL, and only then. -/
structure AttributesFailures (env : Env) (p : PhaseDescriptor) (rec : Option ℕ) (inTeardown : Bool)
    (w : World) : Prop where
  returns : wp (TestExecutor.executePhase env (phaseExecutor env) p rec inTeardown)
    (fun ret w' ↦
      if w.autoSkips rec inTeardown then ret = .CONTINUE
      else ∃ o s s', OpenHtf.executePhase env p (rec.map w.subtestRecords) w.run = (.ok o, s) ∧
        ret = (attributed (s.testRecord.phases.drop w.run.testRecord.phases.length) o).executorReturn ∧
        w' = w.endPhase p rec inTeardown
          (attributed (s.testRecord.phases.drop w.run.testRecord.phases.length) o) s')
    (fun _ _ ↦ False) w

theorem Accounted.attributed {n : ℕ} {s : RunState} (h : Accounted n s) :
    ∃ last, s.testRecord.phases.getLast? = some last ∧ ∀ o,
      attributed (s.testRecord.phases.drop n) o = if last.outcome = some .FAIL then .result .STOP else o := by
  obtain ⟨init, r, hs, hn⟩ := h
  refine ⟨r, by simp [hs], fun o ↦ ?_⟩
  rcases hn with hn | ⟨rfl, hr⟩
  · simp [OpenHtf.attributed, hs, List.drop_append_of_le_length hn]
  · simp [OpenHtf.attributed, hs, hr]

theorem World.concluded_events (o : PhaseExecutionOutcome) (unit : String) (rec : Option ℕ) (w : World) :
    w.events <+: (w.concluded o unit rec).events := by
  unfold World.concluded
  split_ifs
  · exact List.prefix_rfl
  · exact List.prefix_rfl
  · cases rec with
    | none => exact List.prefix_rfl
    | some i => exact List.prefix_append _ _
  · exact List.prefix_rfl

/-- The outcome with which a phase has ended can be read off. -/
theorem World.endPhase_inj {p : PhaseDescriptor} {rec : Option ℕ} {td : Bool}
    {o o' : PhaseExecutionOutcome} {s s' : RunState} {w : World}
    (h : w.endPhase p rec td o s = w.endPhase p rec td o' s') : o = o' := by
  have hbegins (o : PhaseExecutionOutcome) (s : RunState) :
      w.events ++ [.executing w.callstack (.phase p) td] ++ [.ended w.callstack (.phase p) td o] <+:
        (w.endPhase p rec td o s).events :=
    World.concluded_events o p.name rec
      (((w.addEvent (.executing w.callstack (.phase p) td)).setRun s).addEvent
        (.ended w.callstack (.phase p) td o))
  have hsame := List.prefix_of_prefix_length_le (hbegins o s) (h ▸ hbegins o' s') (by simp)
  have heq := List.append_cancel_left (hsame.eq_of_length (by simp))
  simpa using heq

section Attribution

variable {rec : Option ℕ} {td : Bool} {w : World}

theorem wp_stopOnFirstFailure {Q : PhaseExecutionOutcome → RunState → Prop}
    {E : PyExc → RunState → Prop} {o : PhaseExecutionOutcome} {last : PhaseRecord} {s : RunState}
    (hon : env.StopsOnFirstFailure) (hlast : s.testRecord.phases.getLast? = some last)
    (h : ∀ s', Q (if last.outcome = some .FAIL then .result .STOP else o) s') :
    wp (stopOnFirstFailure env o) Q E s := by
  rw [Env.StopsOnFirstFailure] at hon
  simp only [stopOnFirstFailure, hon, if_true, noteStep, wp_bind, wp_gets, wp_modify, hlast]
  exact h _

/-- Without a record the lookup fails. -/
theorem not_returns_stopOnFirstFailure {o : PhaseExecutionOutcome} {s : RunState}
    (hon : env.StopsOnFirstFailure) (hnil : s.testRecord.phases = []) :
    wp (stopOnFirstFailure env o) (fun _ _ ↦ False) (fun _ _ ↦ True) s := by
  rw [Env.StopsOnFirstFailure] at hon
  simp only [stopOnFirstFailure, hon, if_true, noteStep, wp_bind, wp_gets, wp_modify, hnil]
  trivial

theorem executePhase_attributes (hon : env.StopsOnFirstFailure)
    (hquiet : w.run.sync.runningPhaseState = false)
    (h : w.autoSkips rec td = true ∨ ¬Misattributes env p w.run) :
    wp (TestExecutor.executePhase env (phaseExecutor env) p rec td)
      (fun ret w' ↦
        if w.autoSkips rec td then ret = .CONTINUE
        else ∃ o s s', OpenHtf.executePhase env p (rec.map w.subtestRecords) w.run = (.ok o, s) ∧
          ret = (attributed (s.testRecord.phases.drop w.run.testRecord.phases.length) o).executorReturn ∧
          w' = w.endPhase p rec td
            (attributed (s.testRecord.phases.drop w.run.testRecord.phases.length) o) s')
      (fun _ w' ↦ w'.run.Untamed) w := by
  simp only [TestExecutor.executePhase, executeLeaf, subtestRecord, TestExecutor.autoSkips, wp_bind,
    wp_gets, wp_ite, wp_onRun, wp_noteEvent, noteThread, wp_modify, wp_pure]
  split
  · rename_i hskip
    have hskip : w.autoSkips rec td = true := hskip
    refine wp.mono (skipPhase_quiet ?_) (fun _ s _ ↦ ?_) fun _ _ hu ↦ hu
    · exact hquiet
    · exact (if_pos hskip).mpr trivial
  · rename_i hskip
    have hskip : ¬w.autoSkips rec td = true := hskip
    refine (executePhase_of_not_misattributes hquiet (h.resolve_left hskip)).run.mono ?_ fun _ _ hu ↦ hu
    rintro o s ⟨⟨haccounted, hinside⟩, hrun⟩
    obtain ⟨last, hlast, hattributed⟩ := haccounted.attributed
    refine wp_stopOnFirstFailure hon hlast fun s' ↦ ?_
    rw [← hattributed, wp, conclude_apply ?_]
    · refine (if_neg hskip).mpr ⟨o, s, s', hrun, rfl, rfl⟩
    · intro ho
      have hsome : (rec.map w.subtestRecords).isSome = true := by
        rw [attributed] at ho
        split at ho
        · cases ho
        · exact hinside ho
      simpa using hsome

/-- The phase ends with STOP, unless an exception escapes. -/
theorem executePhase_stops (hon : env.StopsOnFirstFailure)
    (hquiet : w.run.sync.runningPhaseState = false) (hskip : ¬w.autoSkips rec td = true)
    (hm : Misattributes env p w.run) :
    wp (TestExecutor.executePhase env (phaseExecutor env) p rec td)
      (fun _ w' ↦ ∃ o s s', OpenHtf.executePhase env p (rec.map w.subtestRecords) w.run = (.ok o, s) ∧
        s.testRecord.phases = w.run.testRecord.phases ∧ o ≠ .result .STOP ∧
        w' = w.endPhase p rec td (.result .STOP) s')
      (fun _ _ ↦ True) w := by
  simp only [TestExecutor.executePhase, executeLeaf, subtestRecord, TestExecutor.autoSkips, wp_bind,
    wp_gets, wp_ite, wp_onRun, wp_noteEvent, noteThread, wp_modify, wp_pure]
  refine (if_neg (by exact hskip)).mpr ?_
  refine (executePhase_of_misattributes hquiet hm).run.mono ?_ fun _ _ _ ↦ trivial
  rintro o s ⟨⟨hphases, hne⟩, hrun⟩
  cases hlast : w.run.testRecord.phases.getLast? with
  | none =>
      have hnil : s.testRecord.phases = [] := hphases.trans (List.getLast?_eq_none_iff.mp hlast)
      refine (not_returns_stopOnFirstFailure hon ?_).mono (fun _ _ hf ↦ hf.elim) fun _ _ _ ↦ trivial
      exact hnil
  | some last =>
      have hfail : last.outcome = some .FAIL := (hm.2 last hlast).1
      refine wp_stopOnFirstFailure hon (hphases ▸ hlast :) fun s' ↦ ?_
      rw [if_pos hfail, wp, conclude_apply (fun ho ↦ by cases ho)]
      exact ⟨o, s, s', hrun, hphases, hne, rfl⟩

theorem not_attributesFailures_of_misattributes (hon : env.StopsOnFirstFailure)
    (hquiet : w.run.sync.runningPhaseState = false) (hskip : ¬w.autoSkips rec td = true)
    (hm : Misattributes env p w.run) : ¬AttributesFailures env p rec td w := by
  rintro ⟨hreturns⟩
  have hfalse : wp (TestExecutor.executePhase env (phaseExecutor env) p rec td)
      (fun _ _ ↦ False) (fun _ _ ↦ False) w := by
    refine (hreturns.and (executePhase_stops hon hquiet hskip hm)).mono ?_ fun _ _ hp ↦ hp.1
    rintro ret w' ⟨hended, o, s, s', hrun, hphases, hne, hw'⟩
    rw [if_neg hskip] at hended
    obtain ⟨o₁, s₁, s₁', hrun₁, -, hw₁⟩ := hended
    obtain ⟨ho, rfl⟩ := Prod.mk.inj (hrun₁.symm.trans hrun)
    obtain rfl := Except.ok.inj ho
    -- There are no records of the phase, so the outcome is the one of `execute_phase`.
    have hown : attributed (s₁.testRecord.phases.drop w.run.testRecord.phases.length) o₁ = o₁ := by
      rw [hphases, List.drop_length]
      rfl
    rw [hown] at hw₁
    exact hne (World.endPhase_inj (hw₁.symm.trans hw'))
  exact wp_same.mp hfalse

end Attribution

/-- The options of a test that stops on the first failure. -/
def stoppingOnFailure : Env where
  testOptions := { stopOnFirstFailure := true }

theorem AttributesFailures.isOk {p : PhaseDescriptor} {rec : Option ℕ} {td : Bool} {w : World}
    (h : AttributesFailures env p rec td w) :
    (TestExecutor.executePhase env (phaseExecutor env) p rec td w).1.isOk = true := h.returns.isOk

/-- A phase that is not to be run, without the options that repeat one. -/
def keptOutPhase : PhaseDescriptor where
  id := 1
  name := "calibrate"
  options := { runIf := some fun _ ↦ .ok false }

end OpenHtf
