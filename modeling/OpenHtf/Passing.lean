import OpenHtf.ThreadRun

/-!
# What a passing test has behind it

A test that passes has gone through: nothing has escaped from the body of
`_thread_proc` and `_execute_node` returned CONTINUE.  That is so unless a callable
of the user raised what is no `Exception`, `phases[-1]` was looked up when there
was no record, or a node of an unknown class was met.
-/

set_option autoImplicit false

namespace OpenHtf

open Act TestExecutor

/-- Nothing escapes from the body of the thread, which runs to its end, and
`_execute_node` returns CONTINUE. -/
def BodyContinues (env : Env) (test : Test) (abortCalls : ℕ) : Prop :=
  (threadBody env (phaseExecutor env) test (World.atBody test abortCalls)).1 = .ok (some .CONTINUE)

/-- None of the steps of the run is one that no outcome tells of. -/
structure World.OnTrack (w : World) : Prop where
  tame : ∀ e, .raised e ∈ w.run.steps ∨ .testDiagnoserRaised e ∈ w.run.steps → e.isException = true
  recorded : .lastPhaseRecord false ∉ w.run.steps
  handled : .unhandledNode ∉ w.run.steps

theorem World.OnTrack.not_derailed {w : World} {s : RunState} (h : w.OnTrack) (hs : s.steps <+: w.run.steps) :
    ¬s.Derailed := by
  rintro ((⟨e, he, hne⟩ | hrecord) | ⟨e, he, hne⟩)
  · simp [h.tame e (.inl (hs.subset he))] at hne
  · exact h.recorded (hs.subset hrecord)
  · simp [h.tame e (.inr (hs.subset he))] at hne

theorem TestOptions.verdict_ne_pass (options : TestOptions) (o : PhaseExecutionOutcome) :
    options.verdict o ≠ .PASS := by
  cases o with
  | raised e =>
      simp only [verdict]
      split <;> simp
  | _ => simp [verdict]

/-- A test that ends with PASS is finalised normally: nobody has aborted, and there
is no terminal outcome. -/
theorem executeTestTeardown_pass {env : Env} {w : World} (hcreated : w.testStateCreated = true)
    (h : w.run.Unfinished) (hlast : w.LastTerminal) :
    (executeTestTeardown env w).2.run.testRecord.outcome = some .PASS →
      w.run.sync.abort = false ∧ w.lastOutcome = none := by
  have hstatus (s : RunState) (hs : TornDown env w s) (x : Step) :
      (s.addStep x).testState.status ≠ .COMPLETED := hs.status ▸ h.status
  refine (wp_same (P := fun w' : World ↦ w'.run.testRecord.outcome = some .PASS →
    w.run.sync.abort = false ∧ w.lastOutcome = none)).mp ?_
  refine executeTestTeardown_wp hcreated fun s hs ↦ ?_
  split_ifs with ha
  · refine (abortTest_spec (hstatus s hs _)).mono (fun _ s' hover hpass ↦ ?_) fun _ _ hf ↦ hf.elim
    have houtcome := hover.outcome.symm.trans hpass
    cases houtcome
  · cases ho : w.lastOutcome.filter (·.isTerminal) with
    | some o =>
        obtain ⟨-, hterminal⟩ := Option.filter_eq_some_iff.mp ho
        by_cases hcrash : o = .terminated ∧ env.testOptions.failureExceptions ≠ []
        · obtain ⟨rfl, hexc⟩ := hcrash
          refine (finalizeFromPhaseOutcome_crash _ (hstatus s hs _) hexc).mono (fun _ _ hf ↦ hf.elim) ?_
          rintro - s' ⟨houtcome, -⟩ hpass
          have hnone : (some Outcome.PASS) = none :=
            hpass.symm.trans (houtcome.trans (hs.outcome.trans h.outcome))
          cases hnone
        · have hexc : o = .terminated → env.testOptions.failureExceptions = [] :=
            fun hterm ↦ by_contra fun hne ↦ hcrash ⟨hterm, hne⟩
          refine (finalizeFromPhaseOutcome_spec _ (hstatus s hs _) hterminal hexc).mono ?_
            fun _ _ hf ↦ hf.elim
          intro _ s' hover hpass
          exact absurd (Option.some.inj (hover.outcome.symm.trans hpass)) (env.testOptions.verdict_ne_pass o)
    | none =>
        refine (finalizeNormally_spec (hstatus s hs _)).mono (fun _ s' _ _ ↦ ⟨?_, ?_⟩) fun _ _ hf ↦ hf.elim
        · by_contra hne
          have hset := (Sync.sameView_interfere env.schedule w.run.sync).abort (by simpa using hne)
          rw [hs.sync] at ha
          exact ha hset
        · cases hl : w.lastOutcome with
          | none => rfl
          | some o => simp [hl, hlast o hl, Option.filter] at ho

section Passing

variable {env : Env} {test : Test} {abortCalls : ℕ}

theorem endThread_outcome (w : World) :
    (endThread env w).2.run = (executeTestTeardown env w).2.run := by
  unfold endThread
  rw [bind_apply]
  rcases executeTestTeardown env w with ⟨_ | _, w'⟩ <;> rfl

/-- A phase that `run_if` declines and that is repeated when a measurement fails. -/
def skippedPhase : PhaseDescriptor where
  id := 1
  name := "measure"
  options := { runIf := some fun _ ↦ .ok false, repeatOnMeasurementFail := true }

end Passing

end OpenHtf
