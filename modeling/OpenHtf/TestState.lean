import OpenHtf.World

/-!
# The stages of a test

The methods of `test_state.TestState` that start a test and finish it.
-/

set_option autoImplicit false

namespace OpenHtf

namespace TestState

def isFinalized (t : TestState) : Bool := t.status == .COMPLETED

def isAborted (t : TestState) : Bool := t.isFinalized && t.testRecord.outcome == some .ABORTED

end TestState

def markTestStarted : Exec Unit := do
  if (← Act.gets (·.testRecord.startTimeMillis)) ≠ 0 then
    Act.raise (.ofClass .AssertionError "")
  let now ← timeMillis
  Act.modify (RunState.mapTestRecord fun r ↦ { r with startTimeMillis := now })

def setStatusRunning : Exec Unit := do
  let t ← Act.gets (·.testState)
  if t.isAborted then pure ()
  else if t.status ≠ .WAITING_FOR_TEST_START then
    Act.raise (.ofClass .AssertionError "")
  else
    Act.modify (RunState.mapTestState fun t ↦ { t with status := .RUNNING })

/-- `TestState._finalize`. -/
def finalizeTest (outcome : Outcome) : Exec Unit := do
  let t ← Act.gets (·.testState)
  if t.isFinalized ∧ outcome ≠ .ABORTED then
    Act.raise (.ofClass .AssertionError "Test already completed with status COMPLETED!")
  Act.modify (RunState.mapTestRecord fun r ↦ { r with outcome := some outcome })
  if (← Act.gets (·.testRecord.startTimeMillis)) = 0 then
    let now ← timeMillis
    Act.modify (RunState.mapTestRecord fun r ↦ { r with startTimeMillis := now })
  let now ← timeMillis
  Act.modify (RunState.mapTestState fun t ↦
    { t with status := .COMPLETED, testRecord.endTimeMillis := some now })

def addOutcomeDetails (code description : String) : Exec Unit :=
  Act.modify (RunState.mapTestRecord (·.addOutcomeDetails code description))

/-- `TestState._outcome_is_failure_exception`.  The loop looks up `exc_val` on
the phase result, which a `ThreadTerminationError` does not have. -/
def outcomeIsFailureException (options : TestOptions) : PhaseExecutionOutcome → Exec Bool
  | .raised e => pure (options.failureExceptions.any e.isinstance)
  | _ =>
    if options.failureExceptions = [] then pure false
    else Act.raise (.ofClass .AttributeError
      "'ThreadTerminationError' object has no attribute 'exc_val'")

/-- `ExceptionInfo.exc_type.__name__` and `str(exc_val)`, or the same of a
`ThreadTerminationError`. -/
def PhaseExecutionOutcome.codeAndDescription : PhaseExecutionOutcome → String × String
  | .raised e => (e.excType.name, e.message)
  | _ => (ExcClass.ThreadTerminationError.name, "")

def finalizeFromPhaseOutcome (env : Env) (o : PhaseExecutionOutcome) (phaseName : String) :
    Exec Unit := do
  if (← Act.gets (·.testState)).isAborted then pure ()
  else if o.raisedException then
    let (code, description) := o.codeAndDescription
    addOutcomeDetails code description
    if ← outcomeIsFailureException env.testOptions o then
      finalizeTest .FAIL
    else
      finalizeTest .ERROR
  else if o.isTimeout then
    addOutcomeDetails "TIMEOUT" s!"Phase {phaseName} hit its timeout."
    finalizeTest .TIMEOUT
  else if o = .result .STOP then
    addOutcomeDetails "STOP" s!"Phase {phaseName} stopped the test run."
    finalizeTest .FAIL

def isFailedMultidimMeasurement (m : Measurement) : Bool :=
  m.outcome != .PASS && m.dimensions != 0

def getFailedMultidimMeasurements (r : TestRecord) : List Measurement :=
  (r.phases.filter (·.outcome == some .FAIL)).flatMap fun p ↦
    p.measurements.filter isFailedMultidimMeasurement

def multidimMessage (m : Measurement) : String :=
  "\n".intercalate
    ([s!" failed_item: {m.name} ({m.outcome.text})", s!"  measured_value: {m.measuredValue}",
        "  validators:"]
      ++ m.validators.map fun v ↦ s!"   validator: {v.text}")

def addMultidimOutcomeDetails : Exec Unit :=
  Act.modify (RunState.mapTestRecord fun r ↦
    (getFailedMultidimMeasurements r).foldl
      (fun r m ↦ r.addOutcomeDetails "Multidim Measurement Failure" (multidimMessage m)) r)

def finalizeNormally : Exec Unit := do
  let t ← Act.gets (·.testState)
  let r := t.testRecord
  if t.isAborted then pure ()
  else if r.phases = [] then
    finalizeTest .PASS
  else if r.phases.any (·.outcome == some .FAIL) then
    addMultidimOutcomeDetails
    finalizeTest .FAIL
  else if r.phases.all (·.outcome == some .SKIP) then
    addOutcomeDetails "ALL_SKIPPED" "All phases were unexpectedly skipped."
    finalizeTest .ERROR
  else if r.diagnoses.any (·.isFailure) then
    finalizeTest .FAIL
  else if r.subtests.any (·.isFail) then
    finalizeTest .FAIL
  else
    Act.modify (RunState.mapTestRecord fun r ↦
      { r with marginal := some (r.phases.any (·.marginal == some true)) })
    finalizeTest .PASS

/-- `TestState.abort`. -/
def abortTest : Exec Unit := do
  if (← Act.gets (·.testState)).isAborted then pure ()
  else
    addOutcomeDetails "ABORTED" "Test aborted by operator."
    finalizeTest .ABORTED

end OpenHtf
