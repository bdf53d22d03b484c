import OpenHtf.Assignment
import OpenHtf.PhaseClassification
import OpenHtf.PhaseRun

/-!
# The attempts of a phase

Without an abort, each run of a phase starts one phase thread and adds one
record.
-/

set_option autoImplicit false

namespace OpenHtf

open Act

/-! ## Without an abort -/

namespace Sync

/-- Nobody aborts, and a phase is running or not. -/
structure Calm (running : Bool) (s : Sync) : Prop extends NoAbort s where
  stopping : s.stopping = false
  running : s.runningPhaseState = running

/-- What the aborting thread has to do with. -/
def abortFields (s : Sync) : Bool × Bool × AbortPc × ℕ × Bool :=
  (s.abort, s.fullAbort, s.abortPc, s.abortCalls, s.stopping)

theorem Calm.of_abortFields {running : Bool} {s s' : Sync} (h : s.Calm running)
    (hs : s'.abortFields = s.abortFields) : s'.Calm s'.runningPhaseState := by
  simp only [abortFields, Prod.mk.injEq] at hs
  obtain ⟨habort, hfull, hpc, hcalls, hstop⟩ := hs
  exact ⟨⟨habort.trans h.abort, hfull.trans h.fullAbort, hpc.trans h.idle, hcalls.trans h.calls⟩,
    hstop.trans h.stopping, rfl⟩

theorem Calm.setStartPending {running : Bool} {s : Sync} (h : s.Calm running) (b : Bool) :
    (s.setStartPending b).Calm running :=
  ⟨⟨h.abort, h.fullAbort, h.idle, h.calls⟩, h.stopping, h.running⟩

theorem Calm.repeatPhase {running : Bool} {s : Sync} (h : s.Calm running) : s.repeatPhase.Calm running :=
  ⟨⟨h.abort, h.fullAbort, h.idle, h.calls⟩, h.stopping, h.running⟩

theorem Calm.interfere {running : Bool} {s : Sync} (h : s.Calm running) (schedule : ℕ → ℕ) :
    (s.interfere schedule).Calm running ∧ (s.interfere schedule).threads = s.threads := by
  have hsame : abortStep^[schedule s.operations] s = s :=
    iterate_keeps (I := (· = s)) (fun t ht ↦ ht.symm ▸ abortStep_of_noAbort h.toNoAbort) _ rfl
  rw [Sync.interfere, hsame]
  exact ⟨⟨⟨h.abort, h.fullAbort, h.idle, h.calls⟩, h.stopping, h.running⟩, rfl⟩

end Sync

/-- An operation that the aborting thread has nothing to do with. -/
theorem wp_shared_calm {α : Type} {env : Env} {op : Sync → α × Sync} {Q : α → RunState → Prop}
    {E : PyExc → RunState → Prop} {b : Bool} {s : RunState} (h : s.sync.Calm b)
    (hop : ∀ i, (op i).2.abortFields = i.abortFields)
    (hQ : ∀ i : Sync, i.Calm b → i.threads = s.sync.threads →
      (op i).2.Calm (op i).2.runningPhaseState → Q (op i).1 { s with sync := (op i).2 }) :
    wp (shared env op) Q E s := by
  obtain ⟨hcalm, hthreads⟩ := h.interfere env.schedule
  exact hQ _ hcalm hthreads (hcalm.of_abortFields (hop _))

variable {env : Env} {p : PhaseDescriptor} {rec : Option SubtestRecord}

theorem enterPhase_calm {s : RunState} (h : s.sync.Calm false) :
    wp (enterPhase env p)
      (fun _ s' ↦ s'.sync.Calm true ∧ s'.sync.threads = s.sync.threads ∧ s'.testState = s.testState)
      (fun _ _ ↦ False) s := by
  simp only [enterPhase, timeMillis, noteStep, wp_bind, wp_ite]
  refine wp_shared_calm h (fun _ ↦ rfl) fun i hi hthreads hi' ↦ ?_
  have hquiet : (Sync.enterRunningPhase i).1 = false := hi.running
  simp only [hquiet, Bool.false_eq_true, if_false, wp_callUser, wp_modify]
  exact ⟨hi', hthreads, rfl⟩

theorem leavePhase_calm {s : RunState} {o : PhaseExecutionOutcome} (h : s.sync.Calm true)
    (hr : s.result = some o) :
    wp (leavePhase env)
      (fun _ s' ↦ s'.sync.Calm false ∧ s'.sync.threads = s.sync.threads ∧
        s'.testRecord.phases = s.testRecord.phases ++ [s'.phaseState.phaseRecord] ∧
        EndsWith o s.phaseState.hitRepeatLimit s'.phaseState.phaseRecord)
      (fun _ s' ↦ s'.Untamed) s := by
  have hresult : s.HasResult := by rw [RunState.HasResult, hr]; rfl
  simp only [leavePhase, wp_bind, wp_catching, noteStep, wp_modify, wp_raise]
  refine ((safe_finalizePhase env s hresult).and
    ((finalizePhase_endsWith hr).and ((endFrame_finalizePhase env).wp s))).mono ?_ ?_
  · rintro - s₁ ⟨-, hends, hf⟩
    refine wp_shared_calm (hf.sync.symm ▸ h) (fun _ ↦ rfl) fun i _ hthreads hi ↦ ⟨hi, ?_, ?_, hends⟩
    · exact hthreads.trans (congrArg Sync.threads hf.sync)
    · exact congrArg (· ++ [s₁.phaseState.phaseRecord]) hf.phases
  · rintro e s₁ ⟨hu, -⟩
    exact Untamed.mono hu (List.prefix_append _ _)

/-- A phase thread can come to the outcome `o`. -/
def PhaseDescriptor.CanReturn (p : PhaseDescriptor) (rec : Option SubtestRecord)
    (o : PhaseExecutionOutcome) : Prop :=
  ∃ moment provided killed,
    o = (threadOutcome rec ((p.func moment).threadEnd provided killed)).getD .terminated

theorem joinOrDie_calm {t : PhaseThread} {s : RunState} (h : s.sync.Calm true) :
    wp (joinOrDie env p t rec)
      (fun o s' ↦ s'.sync.Calm true ∧ s'.sync.threads = s.sync.threads ∧
        s'.testState = s.testState ∧ p.CanReturn rec o)
      (fun _ _ ↦ False) s := by
  simp only [joinOrDie, noteStep, wp_bind, wp_callUser, wp_gets, wp_modify]
  refine wp_shared_calm (b := true) h (fun _ ↦ rfl) fun i hi hthreads hi' ↦ ?_
  have hcalm : (Sync.joinPhaseThread t i).2.Calm true := hi.running ▸ hi'
  split
  · rename_i o ho
    exact ⟨hcalm, hthreads, rfl, _, _, _, by rw [ho]; rfl⟩
  · rename_i hnone
    exact ⟨hcalm, hthreads, rfl, _, _, _, by rw [hnone]; rfl⟩

/-! ## Attempts -/

/-- What the thread of an attempt came to, and the record as the attempt left it. -/
structure Attempt where
  returned : PhaseExecutionOutcome
  record : PhaseRecord

/-- An attempt that ended with the outcome `o`; a phase that is to be repeated at the
limit stops the test. -/
structure Attempt.EndedWith (p : PhaseDescriptor) (rec : Option SubtestRecord) (isLastRepeat : Bool)
    (a : Attempt) (o : PhaseExecutionOutcome) : Prop where
  returns : p.CanReturn rec a.returned
  ends : EndsWith a.returned (a.returned.isRepeat && isLastRepeat) a.record
  outcome : if a.returned.isRepeat && isLastRepeat then o = .result .STOP else a.record.result = some o

/-- A run of a phase starts a thread and adds a record. -/
theorem runPhaseOnce_attempt {s : RunState} (last : Bool) (h : s.sync.Calm false) :
    wp (runPhaseOnce env p last rec)
      (fun o s' ↦ s'.sync.Calm false ∧ s'.sync.threads = s.sync.threads + 1 ∧
        ∃ a : Attempt, s'.testRecord.phases = s.testRecord.phases ++ [a.record] ∧
          a.EndedWith p rec last o)
      (fun _ s' ↦ s'.Untamed) s := by
  unfold runPhaseOnce
  rw [wp_bind]
  refine (enterPhase_calm h).mono ?_ fun _ _ hf ↦ hf.elim
  rintro - s₁ ⟨h₁, hn₁, ht₁⟩
  rw [wp_bind, wp_modify, wp_bind]
  refine wp_shared_calm h₁ (fun _ ↦ rfl) fun i₂ hi₂ hn₂ h₂ ↦ ?_
  rw [wp_bind]
  refine wp_shared_calm h₂ (fun _ ↦ rfl) fun i₃ hi₃ hn₃ h₃ ↦ ?_
  have hgo : ¬(Sync.stoppingIsSet i₃).1 = true := by simp [Sync.stoppingIsSet, hi₃.stopping]
  rw [if_neg hgo, wp_bind]
  refine wp_shared_calm h₃ (fun _ ↦ rfl) fun i₄ hi₄ hn₄ h₄ ↦ ?_
  rw [wp_bind]
  refine wp_shared_calm h₄ (fun _ ↦ rfl) fun i₅ hi₅ hn₅ h₅ ↦ ?_
  rw [wp_bind]
  refine wp_shared_calm h₅ (fun _ ↦ rfl) fun i₆ hi₆ hn₆ h₆ ↦ ?_
  have hrun : i₆.runningPhaseState = true :=
    hi₆.running.trans (hi₅.running.trans (hi₄.running.trans (hi₃.running.trans hi₂.running)))
  -- The third of these operations has started the thread.
  have hstarted : i₆.threads = s.sync.threads + 1 := by
    refine hn₆.trans (hn₅.trans ?_)
    exact congrArg (· + 1) (hn₄.trans (hn₃.trans (hn₂.trans hn₁)))
  rw [wp_bind]
  refine (joinOrDie_calm (hrun ▸ h₆)).mono ?_ fun _ _ hf ↦ hf.elim
  rintro o s₇ ⟨h₇, hn₇, ht₇, hreturns⟩
  rw [wp_bind, wp_modify, wp_bind]
  refine wp_shared_calm (b := true) h₇ (fun _ ↦ rfl) fun i₈ hi₈ hn₈ h₈ ↦ ?_
  rw [wp_bind]
  refine (leavePhase_calm (o := o) (hi₈.running ▸ h₈) rfl).mono ?_ fun _ _ hu ↦ hu
  rintro - s₉ ⟨h₉, hn₉, hphases, hends⟩
  have hthreads : s₉.sync.threads = s.sync.threads + 1 :=
    hn₉.trans (hn₈.trans (hn₇.trans hstarted))
  have hphases : s₉.testRecord.phases = s.testRecord.phases ++ [s₉.phaseState.phaseRecord] := by
    rw [hphases]
    exact congrArg (fun t ↦ t.testRecord.phases ++ [s₉.phaseState.phaseRecord]) (ht₇.trans ht₁)
  rw [wp_ite]
  split
  · rename_i hlimit
    exact ⟨h₉, hthreads, ⟨o, s₉.phaseState.phaseRecord⟩, hphases, hreturns, hends, by rw [if_pos hlimit]⟩
  · rename_i hlimit
    obtain ⟨o', ho', -⟩ := hends.result
    rw [wp_bind, wp_gets]
    dsimp only
    rw [ho']
    exact ⟨h₉, hthreads, ⟨o, s₉.phaseState.phaseRecord⟩, hphases, hreturns, hends, by rw [if_neg hlimit]; exact ho'⟩

end OpenHtf
