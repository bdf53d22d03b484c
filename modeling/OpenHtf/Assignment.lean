import OpenHtf.Protocol
import OpenHtf.TreeRules

/-!
# Phase executors that assign outcomes

For results about the shape of a run the phase executor is any one whose methods
return and which gives FAIL_SUBTEST only inside a subtest.  What it may do to the
shared state is a parameter: a condition that the steps of `abort` and of the
test executor keep.
-/

set_option autoImplicit false

namespace OpenHtf

open Act TestExecutor

namespace Sync

/-- A condition on the shared state that `abort` keeps, and that does not depend
on what the test executor changes. -/
structure Stable (K : Sync → Prop) : Prop where
  abort : ∀ s, K s → K s.abortStep
  executor : ∀ (s : Sync) (n : ℕ) (b : Bool) (l : ReentrantLock Thread) (h : List ThreadEvent), K s →
    K { s with operations := n, startPending := b, teardownPhasesLock := l, history := h }

/-- Nobody aborts: no call of `abort` is under way or to come. -/
structure NoAbort (s : Sync) : Prop where
  abort : s.abort = false
  fullAbort : s.fullAbort = false
  idle : s.abortPc = .idle
  calls : s.abortCalls = 0

theorem abortStep_of_noAbort {s : Sync} (h : NoAbort s) : s.abortStep = s := by
  simp [abortStep, h.idle, h.calls]

theorem stable_noAbort : Stable NoAbort where
  abort _ h := (abortStep_of_noAbort h).symm ▸ h
  executor _ _ _ _ _ h := ⟨h.abort, h.fullAbort, h.idle, h.calls⟩

theorem stable_oneAbort : Stable OneAbort where
  abort _ h := oneAbort_abortStep h
  executor _ _ _ _ _ h := ⟨h.fullAbort, h.forced, h.calls, h.under_way, h.done, h.check⟩

section Stable

variable {K : Sync → Prop} {s : Sync}

theorem Stable.interfere (hK : Stable K) (schedule : ℕ → ℕ) (h : K s) : K (s.interfere schedule) :=
  hK.executor _ _ _ _ _ (iterate_keeps hK.abort _ h)

theorem Stable.setStartPending (hK : Stable K) (b : Bool) (h : K s) : K (s.setStartPending b) :=
  hK.executor s s.operations b s.teardownPhasesLock s.history h

theorem Stable.enterGroup (hK : Stable K) (h : K s) : K s.enterGroup.2 :=
  hK.executor s s.operations false s.teardownPhasesLock _ h

theorem Stable.acquire (hK : Stable K) (h : K s) : K s.acquireTeardownPhasesLock.2 :=
  hK.executor _ _ _ _ _ (runUntil_keeps hK.abort 6 h)

theorem Stable.release (hK : Stable K) (h : K s) : K s.releaseTeardownPhasesLock.2 :=
  hK.executor s s.operations false _ s.history h

end Stable

end Sync

/-- What a method of the phase executor keeps. -/
structure Assigned (K : Sync → Prop) (s s' : RunState) : Prop where
  sync : K s'.sync
  status : s'.testState.status = s.testState.status
  outcome : s'.testRecord.outcome = s.testRecord.outcome

/-- Every phase and every checkpoint that is executed is assigned an outcome. -/
structure PhaseExecutor.Assigns (exec : PhaseExecutor) (K : Sync → Prop) : Prop where
  executePhase : ∀ p rec s, K s.sync →
    wp (exec.executePhase p rec)
      (fun o s' ↦ Assigned K s s' ∧ (o = .result .FAIL_SUBTEST → rec.isSome = true))
      (fun _ _ ↦ False) s
  evaluateCheckpoint : ∀ c rec s, K s.sync →
    wp (exec.evaluateCheckpoint c rec)
      (fun o s' ↦ Assigned K s s' ∧ (o = .result .FAIL_SUBTEST → rec.isSome = true))
      (fun _ _ ↦ False) s
  skipPhase : ∀ p rec s, K s.sync →
    wp (exec.skipPhase p rec) (fun _ ↦ Assigned K s) (fun _ _ ↦ False) s
  skipCheckpoint : ∀ c rec s, K s.sync →
    wp (exec.skipCheckpoint c rec) (fun _ ↦ Assigned K s) (fun _ _ ↦ False) s

/-- The oracle that takes the outcome of a phase from its number and the one of
a checkpoint from its name.  FAIL_SUBTEST outside a subtest is an error. -/
def PhaseExecutor.oracle (phase : ℕ → PhaseExecutionOutcome)
    (checkpoint : String → PhaseExecutionOutcome) : PhaseExecutor :=
  let assign (o : PhaseExecutionOutcome) (rec : Option SubtestRecord) : PhaseExecutionOutcome :=
    if o.isFailSubtest && rec.isNone then
      .raised (.ofClass .InvalidPhaseResultError "FAIL_SUBTEST but a subtest is not running.")
    else o
  { executePhase := fun p rec ↦ pure (assign (phase p.id) rec)
    evaluateCheckpoint := fun c rec ↦ pure (assign (checkpoint c.name) rec)
    skipPhase := fun _ _ ↦ pure ()
    skipCheckpoint := fun _ _ ↦ pure () }

theorem assigns_oracle (K : Sync → Prop) (phase : ℕ → PhaseExecutionOutcome)
    (checkpoint : String → PhaseExecutionOutcome) :
    (PhaseExecutor.oracle phase checkpoint).Assigns K := by
  have hassign (o : PhaseExecutionOutcome) (rec : Option SubtestRecord) (e : PyExc) :
      (if o.isFailSubtest && rec.isNone then .raised e else o) = .result .FAIL_SUBTEST →
        rec.isSome = true := by
    intro h
    cases rec with
    | some r => rfl
    | none => cases hf : o.isFailSubtest <;> simp_all [PhaseExecutionOutcome.isFailSubtest]
  exact ⟨fun _ _ _ hs ↦ ⟨⟨hs, rfl, rfl⟩, hassign _ _ _⟩, fun _ _ _ hs ↦ ⟨⟨hs, rfl, rfl⟩, hassign _ _ _⟩,
    fun _ _ _ hs ↦ ⟨hs, rfl, rfl⟩, fun _ _ _ hs ↦ ⟨hs, rfl, rfl⟩⟩

/-- `stop_on_first_failure` is off. -/
def Env.RunsOn (env : Env) : Prop :=
  env.testOptions.stopOnFirstFailure = false ∧ env.conf.stopOnFirstFailure = false

theorem Assigned.trans {K : Sync → Prop} {s s₁ s₂ : RunState} (h : Assigned K s s₁)
    (h' : Assigned K s₁ s₂) : Assigned K s s₂ := ⟨h'.sync, h'.status.trans h.status, h'.outcome.trans h.outcome⟩

/-! ## Leaves -/

/-- What a leaf makes the executor return. -/
def PhaseExecutionOutcome.executorReturn (o : PhaseExecutionOutcome) : ExecutorReturn :=
  if o.isTerminal then .TERMINAL else .CONTINUE

/-- The world once an outcome has been drawn consequences from. -/
def World.concluded (o : PhaseExecutionOutcome) (unit : String) (rec : Option ℕ) (w : World) :
    World :=
  if o.isTerminal then
    if w.lastOutcome.isSome then w
    else { w with lastOutcome := some o, lastExecutionUnit := some unit }
  else if o.isFailSubtest then
    match rec with
    | none => w
    | some i => (w.setSubtestOutcome i .FAIL).addEvent (.subtestFailed i)
  else w

@[simp] theorem World.concluded_run (o : PhaseExecutionOutcome) (unit : String) (rec : Option ℕ)
    (w : World) : (w.concluded o unit rec).run = w.run := by
  unfold World.concluded
  cases rec <;> split_ifs <;> rfl

theorem World.concluded_lastOutcome (o : PhaseExecutionOutcome) (unit : String) (rec : Option ℕ)
    (w : World) :
    (w.concluded o unit rec).lastOutcome =
      if o.isTerminal then w.lastOutcome.or (some o) else w.lastOutcome := by
  cases ho : o.isTerminal with
  | true => cases hl : w.lastOutcome <;> simp [World.concluded, ho, hl]
  | false => cases rec <;> cases hf : o.isFailSubtest <;> simp [World.concluded, ho, hf, World.setSubtestOutcome]

theorem conclude_apply {o : PhaseExecutionOutcome} {unit : String} {rec : Option ℕ} {w : World}
    (h : o = .result .FAIL_SUBTEST → rec.isSome = true) :
    conclude o unit rec w = (.ok o.executorReturn, w.concluded o unit rec) := by
  unfold conclude World.concluded PhaseExecutionOutcome.executorReturn
  split_ifs with ht hl hf
  · simp [andThen, hl]
  · simp [andThen, hl]
  · obtain ⟨i, rfl⟩ := Option.isSome_iff_exists.mp (h (eq_of_beq hf))
    rfl
  · rfl

/-- The two ways to execute a leaf: its record is a skip, or it is assigned an
outcome. -/
inductive LeafRun (K : Sync → Prop) (n : PhaseNode) (unit : String) (rec : Option ℕ) (td : Bool)
    (w : World) : ExecutorReturn → World → Prop
  | skipped (s : RunState) (first next : ℕ) (hs : Assigned K w.run s) (htd : td = false)
      (hfail : w.subtestFails rec = true) :
      LeafRun K n unit rec td w .CONTINUE
        ((w.setRun s).addEvent (.skipped w.callstack n first next))
  | ended (o : PhaseExecutionOutcome) (s : RunState) (hs : Assigned K w.run s)
      (hfail : td = true ∨ w.subtestFails rec = false) :
      LeafRun K n unit rec td w o.executorReturn
        ((((w.addEvent (.executing w.callstack n td)).setRun s).addEvent
          (.ended w.callstack n td o)).concluded o unit rec)

section Leaves

variable {env : Env} {exec : PhaseExecutor} {K : Sync → Prop}

/-- The execution of a phase with the look at `stop_on_first_failure` after it. -/
theorem PhaseExecutor.Assigns.run (h : exec.Assigns K) (hK : Sync.Stable K) (henv : env.RunsOn)
    (p : PhaseDescriptor) (rec : Option SubtestRecord) (s : RunState) (hs : K s.sync) :
    wp (do
        let o ← exec.executePhase p rec
        noteThread (Sync.setStartPending false)
        stopOnFirstFailure env o)
      (fun o s' ↦ Assigned K s s' ∧ (o = .result .FAIL_SUBTEST → rec.isSome = true))
      (fun _ _ ↦ False) s := by
  rw [wp_bind]
  refine (h.executePhase p rec s hs).mono ?_ fun _ _ hf ↦ hf
  rintro o s₁ ⟨h₁, hfail⟩
  have hoff : (env.testOptions.stopOnFirstFailure || env.conf.stopOnFirstFailure) = false := by
    rw [henv.1, henv.2]
    rfl
  simp only [noteThread, stopOnFirstFailure, hoff, wp_bind, wp_modify, Bool.false_eq_true, if_false,
    wp_pure]
  exact ⟨⟨hK.setStartPending false h₁.sync, h₁.status, h₁.outcome⟩, hfail⟩

theorem executeLeaf_spec {n : PhaseNode} {unit : String} {records : TestRecord → ℕ}
    {skip : Option SubtestRecord → Exec Unit}
    {run : Option SubtestRecord → Exec PhaseExecutionOutcome} {rec : Option ℕ} {td : Bool}
    (hK : Sync.Stable K)
    (hskip : ∀ r s, K s.sync → wp (skip r) (fun _ ↦ Assigned K s) (fun _ _ ↦ False) s)
    (hrun : ∀ r s, K s.sync → wp (run r)
      (fun o s' ↦ Assigned K s s' ∧ (o = .result .FAIL_SUBTEST → r.isSome = true))
      (fun _ _ ↦ False) s) {w : World} (hw : K w.run.sync) :
    wp (executeLeaf n unit records skip run rec td) (LeafRun K n unit rec td w)
      (fun _ _ ↦ False) w := by
  simp only [executeLeaf, subtestRecord, autoSkips, wp_bind, wp_gets, wp_ite, wp_onRun, wp_noteEvent,
    noteThread, wp_modify, wp_pure, World.setRun_callstack]
  split
  · rename_i hskips
    obtain ⟨htd, hfail⟩ := Bool.and_eq_true_iff.mp hskips
    refine (hskip _ _ (hK.setStartPending false hw)).mono ?_ fun _ _ hf ↦ hf
    exact fun _ s hs ↦ .skipped s _ _ ⟨hs.sync, hs.status, hs.outcome⟩ (by simpa using htd) hfail
  · rename_i hskips
    refine (hrun _ _ hw).mono ?_ fun _ _ hf ↦ hf
    rintro o s ⟨hs, hfail⟩
    rw [wp, conclude_apply fun ho ↦ by simpa using hfail ho]
    refine .ended o s hs ?_
    cases td <;> simp_all

end Leaves

end OpenHtf
