import OpenHtf.PhaseState

/-!
# Executing one phase or checkpoint

`phase_executor.PhaseExecutor` and the thread it runs a phase in.
-/

set_option autoImplicit false

namespace OpenHtf

/-- `PlugManager.provide_plugs` finds every plug that the phase asks for. -/
def PlugManager.provides (m : PlugManager) (p : PhaseDescriptor) : Bool :=
  (p.plugs.filter (·.updateKwargs)).all fun plug ↦
    match plug.cls with
    | .plug t => m.plugsByType.any fun item ↦ item.1 == t.id
    | .placeholder _ => false

/-- What `PhaseExecutorThread` has come to when it is no longer waited for: its
outcome, or `none` when it died without one. -/
def threadOutcome (rec : Option SubtestRecord) : ThreadEnd → Option PhaseExecutionOutcome
  | .returned none => some (.result .CONTINUE)
  | .returned (some r) =>
      if r = .FAIL_SUBTEST ∧ rec = none then
        some (.raised (.ofClass .InvalidPhaseResultError
          "Phase returned FAIL_SUBTEST but a subtest is not running."))
      else some (.result r)
  | .returnedOther => some (.raised (.ofClass .InvalidPhaseResultError "Invalid phase result"))
  | .raised e => if e.isException then some (.raised e) else none
  | .hangs => some .timeout

/-- A thread that is not killed raises when a plug is missing. -/
def PhaseCall.threadEnd (call : PhaseCall) (provided killed : Bool) : ThreadEnd :=
  if killed then call.endsKilled
  else if provided then call.ends
  else .raised (.ofClass .KeyError "plug")

/-- The run of the phase thread and `PhaseExecutorThread.join_or_die`. -/
def joinOrDie (env : Env) (p : PhaseDescriptor) (thread : PhaseThread)
    (rec : Option SubtestRecord) : Exec PhaseExecutionOutcome := do
  let call ← callUser p.func
  let provided ← Act.gets (·.testState.plugManager.provides p)
  Act.modify (RunState.mapPhaseState fun s ↦
    if provided then
      { s with
        measurements := call.measure s.measurements
        phaseRecord := { s.phaseRecord with
          attachments := call.attachments
          attachments_nodup := call.attachments_nodup } }
    else s)
  let killed ← shared env (Sync.joinPhaseThread thread)
  match threadOutcome rec (call.threadEnd provided killed) with
  | some o => pure o
  | none =>
    noteStep (.threadDied killed)
    pure .terminated

def PhaseOptions.limit (o : PhaseOptions) : ℤ :=
  match o.repeatLimit with
  | none => 3
  | some n => if n = 0 then 3 else n

/-- The branch of `_should_repeat` for `repeat_on_measurement_fail`. -/
def lastRepeatFailed (isLastRepeat : Bool) : Exec Bool := do
  let phases ← Act.gets (·.testRecord.phases)
  noteStep (.lastPhaseRecord (phases ≠ []))
  match phases.getLast? with
  | none => Act.raise (.ofClass .IndexError "list index out of range")
  | some last =>
    let lastRepeatFailed := last.outcome == some .FAIL
    if lastRepeatFailed && !isLastRepeat then
      noteStep .lastPhaseRecordChanged
      Act.modify (RunState.mapTestRecord fun r ↦
        { r with phases := r.phases.dropLast ++ [{ last with outcome := some .SKIP }] })
    pure lastRepeatFailed

def shouldRepeat (p : PhaseDescriptor) (o : PhaseExecutionOutcome) (isLastRepeat : Bool) :
    Exec Bool := do
  if o.isTimeout && p.options.repeatOnTimeout then pure true
  else if o.isRepeat then pure true
  else if p.options.forceRepeat then pure true
  else if p.options.repeatOnMeasurementFail then lastRepeatFailed isLastRepeat
  else pure false

/-- `run_if` answers no, or raises, at this moment. -/
def PhaseOptions.declines (o : PhaseOptions) (moment : ℕ) : Bool :=
  match o.runIf with
  | none => false
  | some runIf =>
    match runIf moment with
    | .ok runPhase => !runPhase
    | .error _ => true

/-- `_execute_phase_once` from `running_phase_context` on. -/
def runPhaseOnce (env : Env) (p : PhaseDescriptor) (isLastRepeat : Bool) (rec : Option SubtestRecord) :
    Exec PhaseExecutionOutcome := do
  enterPhase env p
  Act.modify (RunState.mapPhaseState (·.setSubtestName (rec.bind (·.name))))
  shared env Sync.acquireCurrentPhaseThreadLock
  if ← shared env Sync.stoppingIsSet then
    shared env Sync.releaseCurrentPhaseThreadLock
    Act.modify (RunState.mapPhaseState (·.setResult .terminated))
    leavePhase env
    pure .terminated
  else
    let thread ← shared env Sync.startPhaseThread
    shared env (Sync.setCurrentPhaseThread (some thread))
    shared env Sync.releaseCurrentPhaseThreadLock
    let result ← joinOrDie env p thread rec
    Act.modify (RunState.mapPhaseState fun s ↦
      { s.setResult result with hitRepeatLimit := result.isRepeat && isLastRepeat })
    shared env (Sync.setCurrentPhaseThread none)
    leavePhase env
    if result.isRepeat && isLastRepeat then pure (.result .STOP)
    else do
      -- A validator or a diagnoser that raised has replaced the result.
      match ← Act.gets (·.phaseState.phaseRecord.result) with
      | none =>
        Act.raise (.ofClass .AttributeError "'NoneType' object has no attribute 'phase_result'")
      | some result => pure result

def executePhaseOnce (env : Env) (p : PhaseDescriptor) (isLastRepeat : Bool) (rec : Option SubtestRecord) :
    Exec PhaseExecutionOutcome := do
  match p.options.runIf with
  | none => runPhaseOnce env p isLastRepeat rec
  | some runIf =>
    match ← callUser runIf with
    | .error e =>
      noteThread (Sync.setStartPending false)
      noteStep (.raised e)
      if e.isException then pure (.raised e) else Act.raise e
    | .ok false =>
      noteThread (Sync.setStartPending false)
      pure (.result .SKIP)
    | .ok true => runPhaseOnce env p isLastRepeat rec

/-- One round of the loop of `execute_phase`; `next` are the rounds after it. -/
def executePhaseRound (env : Env) (p : PhaseDescriptor) (rec : Option SubtestRecord)
    (isLastRepeat : Bool) (next : Exec PhaseExecutionOutcome) : Exec PhaseExecutionOutcome := do
  if ← shared env Sync.stoppingIsSet then pure .timeout
  else
    let o ← executePhaseOnce env p isLastRepeat rec
    let again ← shouldRepeat p o isLastRepeat
    if again && !isLastRepeat then
      noteThread Sync.repeatPhase
      next
    else pure o

/-- The loop of `execute_phase` when `repeatsLeft` more rounds may follow the
next one. -/
def executePhaseLoop (env : Env) (p : PhaseDescriptor) (rec : Option SubtestRecord) :
    ℕ → Exec PhaseExecutionOutcome
  | 0 => executePhaseRound env p rec true (pure .timeout)
  | repeatsLeft + 1 => executePhaseRound env p rec false (executePhaseLoop env p rec repeatsLeft)

/-- `PhaseExecutor.execute_phase`: the attempt with number `repeat_count` is
the last one when `repeat_count >= repeat_limit`. -/
def executePhase (env : Env) (p : PhaseDescriptor) (rec : Option SubtestRecord) :
    Exec PhaseExecutionOutcome :=
  executePhaseLoop env p rec (p.options.limit - 1).toNat

def skipPhase (env : Env) (p : PhaseDescriptor) (rec : Option SubtestRecord) : Exec Unit := do
  enterPhase env p
  Act.modify (RunState.mapPhaseState fun s ↦
    (s.setSubtestName (rec.bind (·.name))).setResult (.result .SKIP))
  leavePhase env

/-- `PhaseFailureCheckpoint._check_for_action` on the phase records. -/
def phasesFailed (previous : PreviousPhases) (subtestName : Option (Option String))
    (phases : List PhaseRecord) : Bool :=
  match previous, subtestName with
  | .LAST, _ => phases.getLast?.any fun r ↦ r.outcome == some .FAIL
  | .SUBTEST, some name => phases.any fun r ↦ r.subtestName == name && r.outcome == some .FAIL
  | _, _ => phases.any fun r ↦ r.outcome == some .FAIL

def Checkpoint.getResult (c : Checkpoint) (rec : Option SubtestRecord) : Exec PhaseResult := do
  let s ← Act.gets id
  match c.conditional with
  | .inl previous =>
    if s.testRecord.phases.isEmpty then
      Act.raise (.ofClass .NoPhasesFoundError "No phases found in the test record.")
    let failed := phasesFailed previous (rec.map (·.name)) s.testRecord.phases
    pure (if failed then c.action else .CONTINUE)
  | .inr condition =>
    pure (if condition.check s.testState.diagnosesStore then c.action else .CONTINUE)

def addCheckpointRecord (c : Checkpoint) (rec : Option SubtestRecord) (o : PhaseExecutionOutcome)
    (evaluatedMillis : ℕ) : Exec Unit :=
  Act.modify (RunState.mapTestRecord (·.addCheckpointRecord
    ⟨c.name, c.action, c.conditional, rec.bind (·.name), o, evaluatedMillis⟩))

def evaluateCheckpoint (c : Checkpoint) (rec : Option SubtestRecord) : Exec PhaseExecutionOutcome := do
  let evaluatedMillis ← timeMillis
  noteStep (.checkpointMet c.name evaluatedMillis)
  let o ← exceptException
    (do
      let r ← c.getResult rec
      if r == .FAIL_SUBTEST && rec.isNone then
        Act.raise (.ofClass .InvalidPhaseResultError
          "Checkpoint returned FAIL_SUBTEST, but subtest not running.")
      pure (.result r))
    fun e ↦ pure (.raised e)
  addCheckpointRecord c rec o evaluatedMillis
  pure o

def skipCheckpoint (c : Checkpoint) (rec : Option SubtestRecord) : Exec Unit := do
  let evaluatedMillis ← timeMillis
  noteStep (.checkpointMet c.name evaluatedMillis)
  addCheckpointRecord c rec (.result .SKIP) evaluatedMillis

end OpenHtf
