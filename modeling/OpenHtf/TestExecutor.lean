import OpenHtf.PhaseExecutor
import OpenHtf.Plugs
import OpenHtf.TestState

/-!
# Executing a test

`test_executor.TestExecutor`: the mutually recursive executors of the nodes of
the tree, and the thread that runs a test from start to finish.  They use the
phase executor through the four methods of `PhaseExecutor`.
-/

set_option autoImplicit false

namespace OpenHtf

def moreCritical : ExecutorReturn → ExecutorReturn → ExecutorReturn
  | .CONTINUE, r => r
  | .TERMINAL, _ => .TERMINAL

/-- The methods of the phase executor.  A subtest record is passed for its name
and for being there; that is all they look at. -/
structure PhaseExecutor where
  executePhase : PhaseDescriptor → Option SubtestRecord → Exec PhaseExecutionOutcome
  skipPhase : PhaseDescriptor → Option SubtestRecord → Exec Unit
  evaluateCheckpoint : Checkpoint → Option SubtestRecord → Exec PhaseExecutionOutcome
  skipCheckpoint : Checkpoint → Option SubtestRecord → Exec Unit

/-- The phase executor of the source. -/
def phaseExecutor (env : Env) : PhaseExecutor where
  executePhase := OpenHtf.executePhase env
  skipPhase := OpenHtf.skipPhase env
  evaluateCheckpoint := OpenHtf.evaluateCheckpoint
  skipCheckpoint := OpenHtf.skipCheckpoint

/-- A test as it is given to `TestExecutor`. -/
structure Test where
  phaseSequence : PhaseSequence
  testStart : Option PhaseDescriptor := none

/-- `TestDescriptor.plug_types`. -/
def Test.plugTypes (t : Test) : List PlugCls := t.phaseSequence.allPhases.flatMap fun p ↦ p.plugs.map (·.cls)

namespace TestExecutor

variable (env : Env) (exec : PhaseExecutor)

/-! ## Phases and checkpoints -/

def subtestRecord (rec : Option ℕ) : Executor (Option SubtestRecord) :=
  Act.gets fun w ↦ rec.map w.subtestRecords

/-- The `subtest_rec.is_fail` of a subtest that is not in teardown. -/
def autoSkips (rec : Option ℕ) (inTeardown : Bool) : Executor Bool :=
  Act.gets fun w ↦ !inTeardown && w.subtestFails rec

/-- What `_execute_phase` and `_execute_checkpoint` do with an outcome. -/
def conclude (o : PhaseExecutionOutcome) (unit : String) (rec : Option ℕ) :
    Executor ExecutorReturn := do
  if o.isTerminal then
    Act.modify fun w ↦
      if w.lastOutcome.isSome then w
      else { w with lastOutcome := some o, lastExecutionUnit := some unit }
    pure .TERMINAL
  else if o.isFailSubtest then
    match rec with
    | none => Act.raise (.ofClass .TestExecutionError
        "INVALID STATE: Phase returned outcome FAIL_SUBTEST when not in subtest.")
    | some i =>
      Act.modify (World.setSubtestOutcome i .FAIL)
      noteEvent fun _ ↦ .subtestFailed i
      pure .CONTINUE
  else pure .CONTINUE

/-- With `stop_on_first_failure` the last phase record is looked up, and a FAIL
there makes the outcome STOP. -/
def stopOnFirstFailure (o : PhaseExecutionOutcome) : Exec PhaseExecutionOutcome := do
  if env.testOptions.stopOnFirstFailure || env.conf.stopOnFirstFailure then
    let phases ← Act.gets (·.testRecord.phases)
    noteStep (.lastPhaseRecord (phases ≠ []))
    match phases.getLast? with
    | none => Act.raise (.ofClass .IndexError "list index out of range")
    | some last => pure (if last.outcome = some .FAIL then .result .STOP else o)
  else pure o

/-- `_execute_phase` and `_execute_checkpoint`: `records` counts the records of
this kind of node. -/
def executeLeaf (n : PhaseNode) (unit : String) (records : TestRecord → ℕ)
    (skip : Option SubtestRecord → Exec Unit)
    (run : Option SubtestRecord → Exec PhaseExecutionOutcome) (rec : Option ℕ) (inTeardown : Bool) :
    Executor ExecutorReturn := do
  let subtestRec ← subtestRecord rec
  if ← autoSkips rec inTeardown then
    onRun (noteThread (Sync.setStartPending false))
    let first ← Act.gets fun w ↦ records w.run.testRecord
    onRun (skip subtestRec)
    let next ← Act.gets fun w ↦ records w.run.testRecord
    noteEvent fun ctx ↦ .skipped ctx n first next
    pure .CONTINUE
  else
    noteEvent fun ctx ↦ .executing ctx n inTeardown
    let o ← onRun (run subtestRec)
    noteEvent fun ctx ↦ .ended ctx n inTeardown o
    conclude o unit rec

def executePhase (p : PhaseDescriptor) (rec : Option ℕ) (inTeardown : Bool) :
    Executor ExecutorReturn :=
  executeLeaf (.phase p) p.name (·.phases.length) (exec.skipPhase p)
    (fun subtestRec ↦ do
      let o ← exec.executePhase p subtestRec
      noteThread (Sync.setStartPending false)
      stopOnFirstFailure env o)
    rec inTeardown

def executeCheckpoint (c : Checkpoint) (rec : Option ℕ) (inTeardown : Bool) :
    Executor ExecutorReturn :=
  executeLeaf (.checkpoint c) c.name (·.checkpoints.length) (exec.skipCheckpoint c)
    (exec.evaluateCheckpoint c) rec inTeardown

/-! ## Collections

The executors of the collections take the execution of what is below them as a
statement; the recursion over the tree supplies it. -/

/-- The sequence object `s` is reached and `x` is done with it. -/
def reaching {α : Type} (s : PhaseSequence) (rec : Option ℕ) (inTeardown : Bool)
    (x : Executor α) : Executor α := do
  let failed ← Act.gets (·.subtestFails rec)
  noteEvent fun _ ↦ .reached s inTeardown failed
  let a ← Act.catching x fun e ↦ do
    noteEvent fun _ ↦ .abandoned s inTeardown failed
    Act.raise e
  noteEvent fun _ ↦ .completed s inTeardown failed
  pure a

/-- The entry into `_execute_phase_group`, at which the aborting thread may come in
between. -/
def enteringGroup {α : Type} (x : Executor α) : Executor α := do
  onRun (shared env Sync.enterGroup)
  x

/-- `with self._teardown_phases_lock`. -/
def withTeardownPhasesLock {α : Type} (x : Executor α) : Executor α := do
  onRun (shared env Sync.acquireTeardownPhasesLock)
  Act.finally' x (onRun (shared env Sync.releaseTeardownPhasesLock))

/-- `_subtest_context` up to its `yield`, and the look at the outer record: the
number of the new record and whether the outer subtest has failed. -/
def enterSubtest (s : PhaseSequence) (outer : Option ℕ) : Executor (ℕ × Bool) := do
  let startTimeMillis ← onRun timeMillis
  let i ← Act.gets (·.subtestsMade)
  Act.modify fun w ↦
    { w.setSubtestRecord i { name := s.name, startTimeMillis := startTimeMillis, outcome := some .PASS }
      with subtestsMade := i + 1 }
  let outerFailed ← Act.gets (·.subtestFails outer)
  if outerFailed then
    Act.modify (World.setSubtestOutcome i .FAIL)
  pure (i, outerFailed)

/-- The end of `_execute_subtest`, and `_subtest_context` from its `yield` on. -/
def leaveSubtest (i : ℕ) (outerFailed : Bool) (ret : ExecutorReturn) : Executor Unit := do
  let started ← Act.gets (·.subtestRecords i)
  onRun (noteStep (.subtestCompleted started.name started.startTimeMillis))
  if ret = .TERMINAL then
    Act.modify (World.setSubtestOutcome i .STOP)
  let endTimeMillis ← onRun timeMillis
  Act.modify fun w ↦
    w.setSubtestRecord i { w.subtestRecords i with endTimeMillis := some endTimeMillis }
  let r ← Act.gets (·.subtestRecords i)
  onRun (Act.modify (RunState.mapTestRecord (·.addSubtestRecord r)))
  noteEvent fun _ ↦ .subtestRecorded i outerFailed ret r

/-- `_execute_subtest`. -/
def executeSubtest (s : PhaseSequence) (outer : Option ℕ)
    (sequence : Option ℕ → Executor ExecutorReturn) : Executor ExecutorReturn := do
  let (i, outerFailed) ← enterSubtest s outer
  let ret ← within (.subtest i) (sequence (some i))
  leaveSubtest i outerFailed ret
  pure ret

/-- `_execute_phase_branch`. -/
def executePhaseBranch (s : PhaseSequence) (c : DiagnosisCondition) (rec : Option ℕ)
    (inTeardown : Bool) (sequence : Executor ExecutorReturn) : Executor ExecutorReturn := do
  if ← autoSkips rec inTeardown then pure .CONTINUE
  else
    let evaluatedMillis ← onRun timeMillis
    let inBranch ← Act.gets (·.inBranch)
    onRun (noteStep (.branchEvaluated s.name evaluatedMillis inBranch))
    let store ← Act.gets (·.run.testState.diagnosesStore)
    noteEvent fun ctx ↦ .executing ctx (.sequence s) inTeardown
    let branchTaken := c.check store
    let ret ← if branchTaken then
        within (.branch c store) (Act.catching sequence fun e ↦ do
          onRun (noteStep .branchLost)
          Act.raise e)
      else pure .CONTINUE
    onRun (Act.modify (RunState.mapTestRecord
      (·.addBranchRecord ⟨s.name, c, branchTaken, evaluatedMillis⟩)))
    pure ret

/-- `_execute_phase_group`, with the execution of its three sequences. -/
def executePhaseGroup (g : PhaseGroup) (rec : Option ℕ) (inTeardown : Bool)
    (setup main : Executor ExecutorReturn) (teardown : Bool → Executor ExecutorReturn) :
    Executor ExecutorReturn := do
  let failedAtEntry ← Act.gets (·.subtestFails rec)
  let setupRet ← setup
  if setupRet ≠ .CONTINUE then pure setupRet
  else
    let failedNow ← Act.gets (·.subtestFails rec)
    let skipTeardown := failedAtEntry || (g.setup.isSome && failedNow)
    noteEvent fun ctx ↦ .groupMain ctx g inTeardown failedNow
    let mainRet ← main
    noteEvent fun ctx ↦ .groupTeardown ctx g (!skipTeardown)
    let teardownRet ← teardown (!skipTeardown)
    noteEvent fun ctx ↦ .groupCompleted ctx g
    pure (moreCritical mainRet teardownRet)

/-- The branches of `_execute_node` for the three classes of sequences. -/
def executeSequenceNode (s : PhaseSequence) (rec : Option ℕ) (inTeardown : Bool)
    (sequence : Option ℕ → Executor ExecutorReturn) : Executor ExecutorReturn :=
  match s.kind with
  | .subtest => executeSubtest s rec sequence
  | .branch c => executePhaseBranch s c rec inTeardown (sequence rec)
  | .plain => sequence rec

/-! ## The tree -/

def visiting (n : PhaseNode) (inTeardown : Bool) (x : Executor ExecutorReturn) :
    Executor ExecutorReturn := do
  noteEvent fun ctx ↦ .visited ctx n inTeardown
  within (.node inTeardown) x

mutual

def executeNode : PhaseNode → Option ℕ → Bool → Executor ExecutorReturn
  | .phase p, rec, inTeardown =>
      visiting (.phase p) inTeardown (executePhase env exec p rec inTeardown)
  | .checkpoint c, rec, inTeardown =>
      visiting (.checkpoint c) inTeardown (executeCheckpoint exec c rec inTeardown)
  | .sequence s, rec, inTeardown =>
      visiting (.sequence s) inTeardown (reaching s rec inTeardown
        (executeSequenceNode s rec inTeardown fun rec ↦ executeSequence s rec inTeardown))
  | .group (.mk setup main teardown name), rec, inTeardown =>
      visiting (.group (.mk setup main teardown name)) inTeardown
        (enteringGroup env (executePhaseGroup (.mk setup main teardown name) rec inTeardown
          (executePart setup rec inTeardown) (executePart main rec inTeardown)
          (executePart teardown rec)))
  | .unhandled, _, inTeardown =>
      visiting .unhandled inTeardown (do
        onRun (noteStep .unhandledNode)
        pure .TERMINAL)

def executePart : Option PhaseSequence → Option ℕ → Bool → Executor ExecutorReturn
  | none, _, _ => pure .CONTINUE
  | some s, rec, inTeardown => reaching s rec inTeardown (executeSequence s rec inTeardown)

def executeSequence : PhaseSequence → Option ℕ → Bool → Executor ExecutorReturn
  | .mk kind name nodes, rec, inTeardown =>
      within (.sequence (.mk kind name nodes))
        (if inTeardown then
          withTeardownPhasesLock env (executeTeardownSequence nodes rec .CONTINUE)
        else executeAbortableSequence nodes rec)

def executeAbortableSequence : List PhaseNode → Option ℕ → Executor ExecutorReturn
  | [], _ => pure .CONTINUE
  | n :: ns, rec => do
    if ← onRun (shared env Sync.abortIsSet) then pure .TERMINAL
    else
      onRun (noteThread (Sync.setStartPending n.isPhaseOrGroup))
      let ret ← executeNode n rec false
      if ret ≠ .CONTINUE then pure ret
      else executeAbortableSequence ns rec

def executeTeardownSequence : List PhaseNode → Option ℕ → ExecutorReturn → Executor ExecutorReturn
  | [], _, ret => pure ret
  | n :: ns, rec, ret => do
    if ← onRun (shared env Sync.fullAbortIsSet) then pure .TERMINAL
    else
      let r ← executeNode n rec true
      executeTeardownSequence ns rec (moreCritical ret r)

end

/-! ## The thread of a test -/

def setLastOutcome (o : PhaseExecutionOutcome) (unit : String) : Executor Unit :=
  Act.modify fun w ↦ { w with lastOutcome := some o, lastExecutionUnit := some unit }

/-- `TestExecutor._initialize_plugs`; true when there was an error. -/
def initializePlugs (plugTypes : Option (List PlugCls)) : Executor Bool :=
  Act.catching
    (do
      onRun (initializePlugTypes plugTypes)
      pure false)
    fun e ↦ do
      if e.isException then
        setLastOutcome (.raised e) "Plugs Initialization"
        pure true
      else Act.raise e

/-- True when the start phase ended the test. -/
def executeTestStart (p : PhaseDescriptor) : Executor Bool := do
  if ← initializePlugs (some (p.plugs.map (·.cls))) then
    onRun (noteThread (Sync.setStartPending false))
    pure true
  else
    let o ← onRun (exec.executePhase p none)
    onRun (noteThread (Sync.setStartPending false))
    if o.isTerminal then
      setLastOutcome o "TestStart"
      pure true
    else pure false

/-- The body of the loop of `DiagnosesManager.execute_test_diagnoser`. -/
def acceptTestDiagnosis (d : Diagnosis) : Exec Unit := do
  if d.isInternal then
    Act.raise (.ofClass .InvalidDiagnosisError "Test-level diagnosis cannot be Internal")
  noteStep (.diagnosisAccepted d)
  recordDiagnosis d
  storeDiagnosis d

def executeTestDiagnoser (d : Diagnoser) : Executor Unit :=
  Act.catching (onRun (runDiagnoser d acceptTestDiagnosis)) fun e ↦ do
    onRun (noteStep (.testDiagnoserRaised e))
    if e.isException then
      if (← Act.gets (·.lastOutcome)).any (·.isTerminal) then pure ()
      else setLastOutcome (.raised e) d.name
    else Act.raise e

def executeTestDiagnosers : List Diagnoser → Executor Unit
  | [] => pure ()
  | d :: ds => do
    executeTestDiagnoser d
    executeTestDiagnosers ds

/-- The `TestState` of the run is made, with its `PlugManager`. -/
def createTestState (test : Test) : Executor Unit := do
  if test.plugTypes.any (·.isPlaceholder) then
    Act.raise (.ofClass .InvalidPlugError
      "Plug is a placeholder, replace it using with_plugs().")
  Act.modify fun w ↦
    { w with
      testStateCreated := true
      run := w.run.mapTestState fun _ ↦ { plugManager := { plugTypes := test.plugTypes } } }

def executeTestTeardown : Executor Unit := do
  if !(← Act.gets (·.testStateCreated)) then
    Act.raise (.ofClass .TestStopError "Test stopped.")
  onRun tearDownPlugs
  if ← onRun (shared env Sync.abortIsSet) then
    onRun (noteStep .finalizedAborted)
    onRun abortTest
  else
    let unit ← Act.gets (·.lastExecutionUnit)
    match ← Act.gets (·.lastOutcome) with
    | some o =>
      if o.isTerminal then
        onRun (noteStep (.finalizedFromOutcome o))
        onRun (finalizeFromPhaseOutcome env o (unit.getD "None"))
      else
        onRun (noteStep .finalizedNormally)
        onRun finalizeNormally
    | none =>
      onRun (noteStep .finalizedNormally)
      onRun finalizeNormally

/-- The last part of the `try` of `_thread_proc`: the phases and the test
diagnosers.  The result is the one of `_execute_node`. -/
def runPhases (s : PhaseSequence) : Executor ExecutorReturn := do
  let ret ← executeNode env exec (.sequence s) none false
  executeTestDiagnosers env.testOptions.diagnosers
  pure ret

/-- The `try` of `_thread_proc`; `none` when it returns before the phases. -/
def threadBody (test : Test) : Executor (Option ExecutorReturn) := do
  createTestState test
  onRun (shared env Sync.setPhaseExec)
  let startIsTerminal ← match test.testStart with
    | none => pure false
    | some p => executeTestStart exec p
  if startIsTerminal then pure none
  else
    onRun markTestStarted
    if ← initializePlugs none then pure none
    else
      onRun setStatusRunning
      let ret ← runPhases env exec test.phaseSequence
      pure (some ret)

/-- `TestExecutor._thread_proc`. -/
def threadProc (test : Test) : Executor Unit := do
  Act.modify fun w ↦ { w with executionFinished := false }
  Act.finally'
    (do
      let _ ← threadBody env exec test)
    (do
      executeTestTeardown env
      Act.modify fun w ↦ { w with executionFinished := true })

end TestExecutor

/-- The world in which the thread of a test starts, with a number of calls of
`abort` to come. -/
def World.initial (test : Test) (abortCalls : ℕ) : World where
  run := { sync := { abortCalls := abortCalls, startPending := test.testStart.isSome } }

/-- The world at the end of a run of a test. -/
def World.final (env : Env) (test : Test) (abortCalls : ℕ) : World :=
  (TestExecutor.threadProc env (phaseExecutor env) test (World.initial test abortCalls)).2

end OpenHtf
