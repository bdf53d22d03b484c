import OpenHtf.Finalize
import OpenHtf.RunRules

/-!
# The end of a run

Every run is finalised and releases its waiter, unless a plug is still a
placeholder or the test is to be finalised from a `ThreadTerminationError` while
there are `failure_exceptions`.
-/

set_option autoImplicit false

namespace OpenHtf

open Act TestExecutor

/-! ## Before the end -/

/-- No stage has finalised the test. -/
structure RunState.Unfinished (s : RunState) : Prop where
  status : s.testState.status ≠ .COMPLETED
  outcome : s.testRecord.outcome = none
  steps : ∀ x ∈ s.steps, x.isFinalisation = false

namespace RunState.Unfinished

variable {s s' : RunState}

theorem of_eq (h : s.Unfinished) (hstatus : s'.testState.status = s.testState.status)
    (houtcome : s'.testRecord.outcome = s.testRecord.outcome) (hsteps : s'.steps = s.steps) :
    s'.Unfinished :=
  ⟨hstatus ▸ h.status, houtcome.trans h.outcome, hsteps ▸ h.steps⟩

theorem addStep (h : s.Unfinished) {x : Step} (hx : x.isFinalisation = false) :
    (s.addStep x).Unfinished := by
  refine ⟨h.status, h.outcome, fun y hy ↦ ?_⟩
  rcases List.mem_append.mp hy with hy | hy
  · exact h.steps y hy
  · exact List.mem_singleton.mp hy ▸ hx

end RunState.Unfinished

theorem writesKept_unfinished (env : Env) : WritesKept env (Preserves RunState.Unfinished) where
  shared _ _ h := h.of_eq rfl rfl rfl
  noteThread _ _ h := h.of_eq rfl rfl rfl
  callUser _ _ h := h.of_eq rfl rfl rfl
  noteStep x hx _ h := h.addStep (by cases x <;> first | rfl | cases hx)
  phaseState _ _ h := h.of_eq rfl rfl rfl
  addPhaseRecord _ h := h.of_eq rfl rfl rfl
  addSubtestRecord _ _ h := h.of_eq rfl rfl rfl
  addBranchRecord _ _ h := h.of_eq rfl rfl rfl
  addCheckpointRecord _ _ h := h.of_eq rfl rfl rfl
  recordDiagnosis _ _ h := h.of_eq rfl rfl rfl
  storeDiagnosis _ _ h := h.of_eq rfl rfl rfl
  skipLast _ _ _ _ h := (RunState.Unfinished.addStep h rfl).of_eq rfl rfl rfl

theorem bodyKept_unfinished (env : Env) :
    BodyKept env (Preserves RunState.Unfinished) (World.OnRun (Preserves RunState.Unfinished)) := by
  have hw := writesKept_unfinished env
  have hmap (f : PlugManager → PlugManager) : Within (Preserves RunState.Unfinished) (mapPlugManager f) :=
    .modify fun _ h ↦ h.of_eq rfl rfl rfl
  refine hw.body (fun _ ↦ .modify fun _ h ↦ h.of_eq rfl rfl rfl) ?_
    (within_initializePlugTypes (fun _ ↦ .modify fun _ h ↦ h.addStep rfl) hmap hw.callUser
      (fun _ ↦ hw.noteStep _ rfl) fun _ _ ↦ .modify fun _ h ↦ h.addStep rfl)
  have hrunning (s : RunState) (h : s.Unfinished) :
      (s.mapTestState fun t ↦ { t with status := .RUNNING }).Unfinished :=
    ⟨nofun, h.outcome, h.steps⟩
  exact .bind .gets fun _ ↦ .ite (fun _ ↦ .pure) fun _ ↦ .ite (fun _ ↦ .raise) fun _ ↦ .modify hrunning

/-! ## The end -/

/-- The waiter is released, and the `TestState`, if it was created, is finalised. -/
structure World.Finalised (w : World) : Prop where
  executionFinished : w.executionFinished = true
  status : w.testStateCreated = true → w.run.testState.status = .COMPLETED
  outcome : w.testStateCreated = true → w.run.testRecord.outcome.isSome = true
  endTime : w.testStateCreated = true → w.run.testRecord.endTimeMillis.isSome = true

/-- The test is to be finalised from a `ThreadTerminationError`. -/
def World.Terminated (w : World) : Prop := .finalizedFromOutcome .terminated ∈ w.run.steps

/-- The steps of the end: those before are of an unfinished test. -/
theorem TornDown.terminated_iff {env : Env} {w : World} {s s' : RunState} {x : Step} {o : Outcome}
    (hs : TornDown env w s) (h : w.run.Unfinished) (hover : (s.addStep x).Over o s') :
    (w.setRun s').Terminated ↔ x = .finalizedFromOutcome .terminated := by
  have hsteps : .finalizedFromOutcome .terminated ∉ s.steps := by
    intro hmem
    obtain ⟨l, hl, hl'⟩ := hs.steps
    rcases List.mem_append.mp (hl ▸ hmem) with hmem | hmem
    · have hfinal := h.steps _ hmem
      cases hfinal
    · obtain ⟨p, hp⟩ := hl' _ hmem
      cases hp
  have hall : (w.setRun s').run.steps = s.steps ++ [x] := hover.steps
  rw [World.Terminated, hall, List.mem_append, List.mem_singleton]
  exact ⟨fun hmem ↦ (hmem.resolve_left hsteps).symm, fun hx ↦ .inr hx.symm⟩

theorem executeTestTeardown_finalises {env : Env} {w : World} (hcreated : w.testStateCreated = true)
    (h : w.run.Unfinished) :
    wp (executeTestTeardown env)
      (fun _ w' ↦ (∃ s o s', RunState.Over o s s' ∧ w' = w.setRun s') ∧
        (w'.Terminated → env.testOptions.failureExceptions = []))
      (fun _ w' ↦ (∃ s, w' = w.setRun s) ∧ w'.run.testState.status ≠ .COMPLETED ∧ w'.Terminated ∧
        env.testOptions.failureExceptions ≠ []) w := by
  refine executeTestTeardown_wp hcreated fun s hs ↦ ?_
  have hstatus : s.testState.status ≠ .COMPLETED := hs.status ▸ h.status
  -- What is finalised with another step has nothing to do with the termination.
  have hother {x : Step} {o : Outcome} {s' : RunState} (hx : x ≠ .finalizedFromOutcome .terminated)
      (hover : (s.addStep x).Over o s') :
      (∃ s₁ o s₂, RunState.Over o s₁ s₂ ∧ w.setRun s' = w.setRun s₂) ∧
        ((w.setRun s').Terminated → env.testOptions.failureExceptions = []) :=
    ⟨⟨_, o, s', hover, rfl⟩, fun hterm ↦ absurd ((hs.terminated_iff h hover).mp hterm) hx⟩
  split_ifs with ha
  · refine (abortTest_spec ?_).mono (fun _ s' hover ↦ ?_) fun _ _ hf ↦ hf.elim
    · exact hstatus
    · exact hother (x := .finalizedAborted) nofun hover
  · cases ho : w.lastOutcome.filter (·.isTerminal) with
    | none =>
        refine (finalizeNormally_spec ?_).mono (fun _ s' hover ↦ ?_) fun _ _ hf ↦ hf.elim
        · exact hstatus
        · obtain ⟨o, hover⟩ := hover
          exact hother (x := .finalizedNormally) nofun hover
    | some o =>
        obtain ⟨-, hterminal⟩ := Option.filter_eq_some_iff.mp ho
        by_cases hcrash : o = .terminated ∧ env.testOptions.failureExceptions ≠ []
        · obtain ⟨rfl, hexc⟩ := hcrash
          refine (finalizeFromPhaseOutcome_crash _ ?_ hexc).mono (fun _ _ hf ↦ hf.elim) ?_
          · exact hstatus
          · rintro - s' ⟨-, hsteps, hs'⟩
            refine ⟨⟨s', rfl⟩, ?_, ?_, hexc⟩
            · rw [World.setRun_run, hs']
              exact hstatus
            · rw [World.Terminated, World.setRun_run, hsteps]
              exact List.mem_append_right _ (List.mem_singleton_self _)
        · have hexc : o = .terminated → env.testOptions.failureExceptions = [] :=
            fun hterm ↦ by_contra fun hne ↦ hcrash ⟨hterm, hne⟩
          refine (finalizeFromPhaseOutcome_spec _ ?_ hterminal hexc).mono (fun _ s' hover ↦ ?_)
            fun _ _ hf ↦ hf.elim
          · exact hstatus
          · refine ⟨⟨_, _, s', hover, rfl⟩, fun hterm ↦ hexc ?_⟩
            cases (hs.terminated_iff h hover).mp hterm
            rfl

/-- The `finally` of the thread finalises an unfinished test, unless
`finalize_from_phase_outcome` raises. -/
theorem endThread_finalised_iff {env : Env} {w : World} (hcreated : w.testStateCreated = true)
    (h : w.run.Unfinished) :
    (endThread env w).2.Finalised ↔
      ((endThread env w).2.Terminated → env.testOptions.failureExceptions = []) := by
  refine (wp_same (P := fun w' : World ↦
    w'.Finalised ↔ (w'.Terminated → env.testOptions.failureExceptions = []))).mp ?_
  simp only [endThread, wp_bind, wp_modify]
  refine (executeTestTeardown_finalises hcreated h).mono ?_ ?_
  · rintro - w' ⟨⟨s, o, s', hover, rfl⟩, hterm⟩
    refine ⟨fun _ ↦ hterm, fun _ ↦ ⟨rfl, fun _ ↦ hover.status, fun _ ↦ ?_, fun _ ↦ hover.endTime⟩⟩
    exact Option.isSome_iff_exists.mpr ⟨o, hover.outcome⟩
  · rintro - w' ⟨⟨s, rfl⟩, hstatus, hterm, hexc⟩
    exact ⟨fun hfinal ↦ absurd (hfinal.status hcreated) hstatus, fun hall ↦ absurd (hall hterm) hexc⟩

/-- A phase that ends its thread with `SystemExit`. -/
def exitingPhase : PhaseDescriptor where
  id := 1
  name := "calibrate"
  func _ := { ends := .raised ⟨.SystemExit, [.BaseException], "1"⟩ }

end OpenHtf
