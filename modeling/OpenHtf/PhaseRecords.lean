import OpenHtf.PhaseAttempts

/-!
# The records of earlier phases

`execute_phase` appends its records to those that are there already, unless
`_should_repeat` takes the last of these for one of its own.
-/

set_option autoImplicit false

namespace OpenHtf

open Act

variable {env : Env} {p : PhaseDescriptor} {rec : Option SubtestRecord}

/-! ## Without an abort -/

theorem runPhaseOnce_calm {s : RunState} (last : Bool) (h : s.sync.Calm false) :
    wp (runPhaseOnce env p last rec)
      (fun _ s' ↦ s'.sync.Calm false ∧ ∃ r, s'.testRecord.phases = s.testRecord.phases ++ [r])
      (fun _ s' ↦ s'.Untamed) s :=
  (runPhaseOnce_attempt last h).mono (fun _ _ ⟨hs', _, a, ha, _⟩ ↦ ⟨hs', a.record, ha⟩) fun _ _ hu ↦ hu

theorem executePhaseOnce_calm {s : RunState} (last : Bool) (h : s.sync.Calm false) :
    wp (executePhaseOnce env p last rec)
      (fun o s' ↦ s'.sync.Calm false ∧
        if p.options.declines s.moment then
          s'.testRecord.phases = s.testRecord.phases ∧ o.isTimeout = false ∧ o.isRepeat = false
        else ∃ r, s'.testRecord.phases = s.testRecord.phases ++ [r])
      (fun _ s' ↦ s'.Untamed) s := by
  refine wp_executePhaseOnce ?_ (fun _ _ _ _ hu ↦ hu) ?_
  · intro hdec o s' ho
    rw [if_pos hdec, ho.sync]
    exact ⟨h.setStartPending false, ho.phases, ho.isTimeout, ho.isRepeat⟩
  · intro hdec s₁ hsync htest
    have hphases : s₁.testRecord.phases = s.testRecord.phases := congrArg (·.testRecord.phases) htest
    simp only [hdec, Bool.false_eq_true, if_false, ← hphases]
    exact runPhaseOnce_calm last (hsync ▸ h)

/-! ## Rounds -/

/-- `_should_repeat` looks at the last record when the phase has been run or not. -/
def PhaseOptions.looksBack (o : PhaseOptions) : Bool := o.repeatOnMeasurementFail && !o.forceRepeat

/-- The records of `s₀` are there, and the last record that `_should_repeat` may
look at is not one of them. -/
def Appended (p : PhaseDescriptor) (s₀ s : RunState) : Prop :=
  ∃ own, s.testRecord.phases = s₀.testRecord.phases ++ own ∧
    (own = [] → p.options.looksBack = false)

theorem Appended.prefix {s₀ s : RunState} (h : Appended p s₀ s) :
    s₀.testRecord.phases <+: s.testRecord.phases := by
  obtain ⟨own, hown, -⟩ := h
  exact ⟨own, hown.symm⟩

theorem shouldRepeat_appended {s₀ s : RunState} (o : PhaseExecutionOutcome) (last : Bool)
    (h : Appended p s₀ s) :
    wp (shouldRepeat p o last) (fun _ s' ↦ s'.sync = s.sync ∧ Appended p s₀ s') (fun _ _ ↦ False) s := by
  simp only [shouldRepeat, wp_ite, wp_pure]
  split_ifs with htimeout hrepeat hforce hlooks
  · exact ⟨trivial, h⟩
  · exact ⟨trivial, h⟩
  · exact ⟨trivial, h⟩
  · obtain ⟨own, hown, hempty⟩ := h
    have hback : p.options.looksBack = true := by simp_all [PhaseOptions.looksBack]
    have hne : own ≠ [] := fun hnil ↦ by simp [hempty hnil] at hback
    obtain ⟨own', x, rfl⟩ := (List.eq_nil_or_concat own).resolve_left hne
    rw [List.concat_eq_append] at hown
    refine (lastRepeatFailed_spec last).mono ?_ ?_
    · rintro b s' ⟨hs', init, r, hr, -, hphases⟩
      -- The record that is looked at, and perhaps changed, is the phase's own.
      rw [hown, ← List.append_assoc] at hr
      obtain ⟨rfl, hx⟩ := List.append_inj' hr rfl
      refine ⟨hs', ?_⟩
      split at hphases
      · exact ⟨own' ++ [{ r with outcome := some .SKIP }], hphases.trans (List.append_assoc ..), by simp⟩
      · exact ⟨own' ++ [r], hphases.trans (List.append_assoc ..), by simp⟩
    · rintro e s' ⟨-, -, hnil, -⟩
      simp [hown] at hnil
  · exact ⟨trivial, h⟩

/-- What follows `_execute_phase_once` in a round. -/
def continueRound (p : PhaseDescriptor) (isLastRepeat : Bool) (next : Exec PhaseExecutionOutcome)
    (o : PhaseExecutionOutcome) : Exec PhaseExecutionOutcome := do
  let again ← shouldRepeat p o isLastRepeat
  if again && !isLastRepeat then
    noteThread Sync.repeatPhase
    next
  else pure o

/-- Without an abort, a round goes on to `_execute_phase_once`. -/
theorem wp_executePhaseRound_go {s : RunState} {last : Bool} {next : Exec PhaseExecutionOutcome}
    {Q : PhaseExecutionOutcome → RunState → Prop} {E : PyExc → RunState → Prop} (h : s.sync.Calm false)
    (hgo : ∀ i : Sync, i.Calm false → i.threads = s.sync.threads →
      wp (executePhaseOnce env p last rec) (fun o ↦ wp (continueRound p last next o) Q E) E
        { s with sync := i }) :
    wp (executePhaseRound env p rec last next) Q E s := by
  unfold executePhaseRound
  rw [wp_bind]
  refine wp_shared_calm h (fun _ ↦ rfl) fun i hi hthreads hi' ↦ ?_
  have hnot : ¬(Sync.stoppingIsSet i).1 = true := by simp [Sync.stoppingIsSet, hi.stopping]
  rw [if_neg hnot, wp_bind]
  exact hgo _ (hi.running ▸ hi' :) hthreads

/-- A round of a phase begins with one execution of it when nobody aborts. -/
theorem wp_executePhaseRound_calm {s : RunState} {last : Bool} {next : Exec PhaseExecutionOutcome}
    {Q : PhaseExecutionOutcome → RunState → Prop} {E : PyExc → RunState → Prop}
    (h : s.sync.Calm false) (hE : ∀ e s', s'.Untamed → E e s')
    (hQ : ∀ o s', s'.sync.Calm false →
      (if p.options.declines s.moment then
        s'.testRecord.phases = s.testRecord.phases ∧ o.isTimeout = false ∧ o.isRepeat = false
      else ∃ r, s'.testRecord.phases = s.testRecord.phases ++ [r]) →
      wp (continueRound p last next o) Q E s') :
    wp (executePhaseRound env p rec last next) Q E s := by
  refine wp_executePhaseRound_go h fun i hi _ ↦ ?_
  refine (executePhaseOnce_calm last hi).mono ?_ hE
  exact fun o s' ⟨hs', ho⟩ ↦ hQ o s' hs' ho

theorem continueRound_appended {s₀ s : RunState} {last : Bool} {next : Exec PhaseExecutionOutcome}
    (hnext : ∀ s, s.sync.Calm false → Appended p s₀ s →
      wp next (fun _ ↦ Appended p s₀) (fun _ s' ↦ s'.Untamed) s)
    (h : s.sync.Calm false) (happ : Appended p s₀ s) (o : PhaseExecutionOutcome) :
    wp (continueRound p last next o) (fun _ ↦ Appended p s₀) (fun _ s' ↦ s'.Untamed) s := by
  unfold continueRound
  rw [wp_bind]
  refine (shouldRepeat_appended o last happ).mono ?_ fun _ _ hf ↦ hf.elim
  rintro again s₁ ⟨hs₁, happ₁⟩
  rw [wp_ite]
  split
  · rw [wp_bind, noteThread, wp_modify]
    have h₁ : s₁.sync.Calm false := hs₁ ▸ h
    exact hnext _ h₁.repeatPhase happ₁
  · exact happ₁

/-- A phase whose own record is there already, or that never looks at it. -/
theorem executePhaseLoop_appended (repeatsLeft : ℕ) {s₀ s : RunState} (h : s.sync.Calm false)
    (happ : Appended p s₀ s) :
    wp (executePhaseLoop env p rec repeatsLeft) (fun _ ↦ Appended p s₀) (fun _ s' ↦ s'.Untamed) s := by
  have hround (last : Bool) (next : Exec PhaseExecutionOutcome)
      (hnext : ∀ s, s.sync.Calm false → Appended p s₀ s →
        wp next (fun _ ↦ Appended p s₀) (fun _ s' ↦ s'.Untamed) s) (s : RunState)
      (h : s.sync.Calm false) (happ : Appended p s₀ s) :
      wp (executePhaseRound env p rec last next) (fun _ ↦ Appended p s₀) (fun _ s' ↦ s'.Untamed) s := by
    refine wp_executePhaseRound_calm h (fun _ _ hu ↦ hu) fun o s' hs' ho ↦ continueRound_appended hnext hs' ?_ o
    obtain ⟨own, hown, hempty⟩ := happ
    split at ho
    · exact ⟨own, ho.1.trans hown, hempty⟩
    · obtain ⟨r, hr⟩ := ho
      exact ⟨own ++ [r], by rw [hr, hown, List.append_assoc], by simp⟩
  induction repeatsLeft generalizing s with
  | zero => exact hround true (pure .timeout) (fun _ _ happ ↦ happ) s h happ
  | succ repeatsLeft ih => exact hround false _ (fun _ h happ ↦ ih h happ) s h happ

/-! ## The result -/

/-- `execute_phase` returns, and it changes no record that is there already. -/
def OnlyAppends (env : Env) (p : PhaseDescriptor) (rec : Option SubtestRecord) (s : RunState) : Prop :=
  wp (executePhase env p rec) (fun _ s' ↦ s.testRecord.phases <+: s'.testRecord.phases)
    (fun _ _ ↦ False) s

/-- `run_if` declines the phase, `_should_repeat` looks at the last record all the
same, and there is none, or it says FAIL and the phase may be repeated. -/
def LooksAtEarlier (p : PhaseDescriptor) (s : RunState) : Prop :=
  p.options.declines s.moment = true ∧ p.options.looksBack = true ∧
    ∀ r ∈ s.testRecord.phases.getLast?, r.outcome = some .FAIL ∧ 1 < p.options.limit

theorem continueRound_of_looksBack {o : PhaseExecutionOutcome} {last : Bool}
    {next : Exec PhaseExecutionOutcome} (hback : p.options.looksBack = true) (ht : o.isTimeout = false)
    (hr : o.isRepeat = false) :
    continueRound p last next o = (do
      let failed ← lastRepeatFailed last
      if failed && !last then
        noteThread Sync.repeatPhase
        next
      else pure o) := by
  simp only [PhaseOptions.looksBack, Bool.and_eq_true, Bool.not_eq_true'] at hback
  simp [continueRound, shouldRepeat, ht, hr, hback.1, hback.2]

/-- The attempt with which a phase begins. -/
theorem executePhase_eq (env : Env) (p : PhaseDescriptor) (rec : Option SubtestRecord) :
    ∃ next, executePhase env p rec = executePhaseRound env p rec (decide (p.options.limit ≤ 1)) next ∧
      (next = pure .timeout ∨ ∃ repeatsLeft, next = executePhaseLoop env p rec repeatsLeft) := by
  unfold executePhase
  rcases hn : (p.options.limit - 1).toNat with _ | n
  · have hlimit : p.options.limit ≤ 1 := by omega
    exact ⟨pure .timeout, by simp [executePhaseLoop, hlimit], .inl rfl⟩
  · have hlimit : ¬p.options.limit ≤ 1 := by omega
    exact ⟨executePhaseLoop env p rec n, by simp [executePhaseLoop, hlimit], .inr ⟨n, rfl⟩⟩

/-- A record that says SKIP is left alone by the rounds that are left. -/
theorem not_prefix_of_skipped {s₀ s : RunState} {init : List PhaseRecord} {r r' : PhaseRecord}
    (hs₀ : s₀.testRecord.phases = init ++ [r]) (hr : r.outcome = some .FAIL)
    (hr' : r'.outcome = some .SKIP) (hs : SkipsKept (init ++ [r']) s.testRecord.phases) :
    ¬s₀.testRecord.phases <+: s.testRecord.phases := by
  rintro ⟨own, hown⟩
  have hkept := hs.skips init.length r' (by simp) hr'
  rw [← hown, hs₀] at hkept
  obtain rfl : r = r' := by simpa using hkept
  rw [hr] at hr'
  cases hr'

theorem executePhase_of_looksAtEarlier {s : RunState} (h : s.sync.Calm false)
    (hl : LooksAtEarlier p s) :
    wp (executePhase env p rec)
      (fun _ s' ↦ ¬s.testRecord.phases <+: s'.testRecord.phases) (fun _ _ ↦ True) s := by
  obtain ⟨hdec, hback, hlast⟩ := hl
  obtain ⟨next, heq, hnext⟩ := executePhase_eq env p rec
  rw [heq]
  refine wp_executePhaseRound_calm h (fun _ _ _ ↦ trivial) fun o s₁ h₁ ho ↦ ?_
  rw [if_pos hdec] at ho
  obtain ⟨hphases, ht, hr⟩ := ho
  rw [continueRound_of_looksBack hback ht hr, wp_bind]
  refine (lastRepeatFailed_spec _).mono ?_ fun _ _ _ ↦ trivial
  rintro failed s₂ ⟨-, init, r, hinit, hfailed, hphases₂⟩
  have hs : s.testRecord.phases = init ++ [r] := hphases ▸ hinit
  obtain ⟨hfail, hlimit⟩ := hlast r (by simp [hs])
  obtain rfl : failed = true := hfailed.mpr hfail
  have hlimit : decide (p.options.limit ≤ 1) = false := by simpa using hlimit
  rw [hlimit] at hphases₂ ⊢
  rw [if_pos ⟨rfl, rfl⟩] at hphases₂
  simp only [wp_ite, wp_bind, noteThread, wp_modify]
  have hkept : Within PhaseFrame next := by
    rcases hnext with rfl | ⟨n, rfl⟩
    · exact .pure
    · exact (phaseKept_phaseFrame env).rounds.executePhaseLoop p rec n
  have hs₂ : SkipsKept (init ++ [{ r with outcome := some .SKIP }]) s₂.testRecord.phases :=
    hphases₂ ▸ .refl _
  exact (hkept.wp _).mono (fun _ s₃ hf ↦ not_prefix_of_skipped hs hfail rfl (hs₂.trans hf.phases))
    fun _ _ _ ↦ trivial

theorem executePhase_of_not_looksAtEarlier {s : RunState} (h : s.sync.Calm false)
    (hl : ¬LooksAtEarlier p s) :
    wp (executePhase env p rec) (fun _ s' ↦ s.testRecord.phases <+: s'.testRecord.phases)
      (fun _ s' ↦ s'.Untamed) s := by
  obtain ⟨next, heq, hnext⟩ := executePhase_eq env p rec
  rw [heq]
  refine wp_executePhaseRound_calm h (fun _ _ hu ↦ hu) fun o s₁ h₁ ho ↦ ?_
  by_cases hlooks : p.options.declines s.moment = true ∧ p.options.looksBack = true
  · -- The last record is looked at, but it is not to be changed.
    obtain ⟨hphases, ht, hr⟩ := (if_pos hlooks.1).mp ho
    rw [continueRound_of_looksBack hlooks.2 ht hr, wp_bind]
    have hlast : ∃ r ∈ s.testRecord.phases.getLast?, ¬(r.outcome = some .FAIL ∧ 1 < p.options.limit) := by
      by_contra hnone
      exact hl ⟨hlooks.1, hlooks.2, fun r hr ↦ by_contra fun hne ↦ hnone ⟨r, hr, hne⟩⟩
    obtain ⟨r, hmem, hkeep⟩ := hlast
    obtain ⟨init, hs⟩ := List.getLast?_eq_some_iff.mp hmem
    refine (lastRepeatFailed_spec _).mono ?_ ?_
    · rintro failed s₂ ⟨-, init', r', hinit, hfailed, hphases₂⟩
      obtain ⟨-, hr'⟩ := List.append_inj' ((hphases.symm.trans hinit).symm.trans hs) rfl
      obtain rfl : r' = r := List.singleton_inj.mp hr'
      have hstop : ¬(failed = true ∧ decide (p.options.limit ≤ 1) = false) := by
        rintro ⟨hf, hlimit⟩
        exact hkeep ⟨hfailed.mp hf, by simpa using hlimit⟩
      rw [if_neg hstop, ← hinit, hphases] at hphases₂
      simp only [wp_ite]
      rw [if_neg (by simpa using hstop)]
      exact hphases₂ ▸ List.prefix_rfl
    · rintro e s₂ ⟨-, -, hnil, -⟩
      simp [← hphases, hnil] at hs
  · refine (continueRound_appended ?_ h₁ ?_ o).mono (fun _ _ happ ↦ happ.prefix) fun _ _ hu ↦ hu
    · rcases hnext with rfl | ⟨n, rfl⟩
      · exact fun _ _ happ ↦ happ
      · exact fun _ hs happ ↦ executePhaseLoop_appended n hs happ
    · split at ho
      · rename_i hdec
        exact ⟨[], by simp [ho.1], fun _ ↦ by simpa [hdec] using hlooks⟩
      · obtain ⟨r, hr⟩ := ho
        exact ⟨[r], hr, by simp⟩

/-- A phase that is never to be run and that may be repeated. -/
def declinedPhase : PhaseDescriptor where
  id := 1
  name := "calibrate"
  options := { runIf := some fun _ ↦ .ok false, repeatOnMeasurementFail := true }

/-- A run with the record of one phase, which failed. -/
def afterFailure : RunState where
  testState := { testRecord := { phases := [{ descriptorId := 0, name := "measure", outcome := some .FAIL }] } }

theorem calm_afterFailure : afterFailure.sync.Calm false := ⟨⟨rfl, rfl, rfl, rfl⟩, rfl, rfl⟩

end OpenHtf
