import OpenHtf.World

/-!
# The end of a phase

`Measurement.validate`, `diagnoses_lib.DiagnosesManager` and
`test_state.PhaseState`: the measurements are finalised, the outcome of the
phase is set, the diagnosers run, and the outcome is set again.
-/

set_option autoImplicit false

namespace OpenHtf

/-! ## Measurements -/

def allValid : List Validator → Exec Bool
  | [] => pure true
  | v :: vs => do
    if ← callRaising v.call then allValid vs else pure false

def anyMarginal : List Validator → Exec Bool
  | [] => pure false
  | v :: vs => do
    match v.isMarginal with
    | none => anyMarginal vs
    | some isMarginal =>
      if ← callRaising isMarginal then pure true else anyMarginal vs

/-- `Measurement.validate`: the measurement as it leaves it, and the exception
that it raises, if any. -/
def Measurement.validate (m : Measurement) : Exec (Measurement × Option PyExc) :=
  exceptException
    (do
      if ← allValid m.validators then
        if ← anyMarginal m.validators then
          pure ({ m with outcome := .PASS, marginal := true }, none)
        else
          pure ({ m with outcome := .PASS }, none)
      else
        pure ({ m with outcome := .FAIL }, none))
    fun e ↦ pure ({ m with outcome := .FAIL }, some e)

/-! ## Diagnoses -/

def verifyAndFixDiagnosis (diagnoser : Diagnoser) (d : Diagnosis) : Exec Diagnosis :=
  if d.result.resultType != diagnoser.resultType then
    Act.raise (.ofClass .InvalidDiagnosisError
      s!"Diagnoser {diagnoser.name} returned different result then its result_type.")
  else if diagnoser.alwaysFail then
    match d.evolveIsFailure with
    | .ok d => pure d
    | .error e => Act.raise e
  else
    pure d

/-- The loop of `_convert_result` over an iterable, with the body of the loop
that consumes it. -/
def convertItems (diagnoser : Diagnoser) (accept : Diagnosis → Exec Unit) :
    List DiagItem → Exec Unit
  | [] => pure ()
  | .diagnosis d :: rest => do
    accept (← verifyAndFixDiagnosis diagnoser d)
    convertItems diagnoser accept rest
  | .other typeName :: _ =>
    Act.raise (.ofClass .InvalidDiagnosisError
      s!"Diagnoser {diagnoser.name} iterable includes non-Diagnosis of type {typeName}.")
  | .raises e :: _ => do
    noteStep (.raised e)
    Act.raise e

/-- Run a diagnoser and consume `_convert_result` of what it returned. -/
def runDiagnoser (diagnoser : Diagnoser) (accept : Diagnosis → Exec Unit) : Exec Unit := do
  match ← callUser diagnoser.run with
  | .raised e =>
    noteStep (.raised e)
    Act.raise e
  | .nothing => pure ()
  | .single d => accept (← verifyAndFixDiagnosis diagnoser d)
  | .invalid =>
    Act.raise (.ofClass .InvalidDiagnosisError
      s!"Diagnoser {diagnoser.name} must return a single Diagnosis or an iterable of them.")
  | .iterable items => convertItems diagnoser accept items

def recordDiagnosis (d : Diagnosis) : Exec Unit :=
  Act.modify (RunState.mapTestRecord (·.addDiagnosis d))

def storeDiagnosis (d : Diagnosis) : Exec Unit :=
  Act.modify (RunState.mapTestState fun t ↦ { t with diagnosesStore := t.diagnosesStore.addDiagnosis d })

namespace PhaseState

def addDiagnosis (d : Diagnosis) (p : PhaseState) : PhaseState :=
  if d.isFailure then
    { p with phaseRecord.failureDiagnosisResults :=
        p.phaseRecord.failureDiagnosisResults ++ [d.result] }
  else
    { p with phaseRecord.diagnosisResults := p.phaseRecord.diagnosisResults ++ [d.result] }

def setResult (o : PhaseExecutionOutcome) (p : PhaseState) : PhaseState :=
  { p with phaseRecord.result := some o }

def setOutcome (o : PhaseOutcome) (p : PhaseState) : PhaseState :=
  { p with phaseRecord.outcome := some o }

def setSubtestName (name : Option String) (p : PhaseState) : PhaseState :=
  { p with phaseRecord.subtestName := name }

/-- `PhaseState.from_descriptor`; the conditional validators whose diagnosis has
been made are added to the copied measurements. -/
def fromDescriptor (p : PhaseDescriptor) (store : DiagnosesStore) (now : ℕ) : PhaseState where
  phaseRecord := { descriptorId := p.id, name := p.name, startTimeMillis := now }
  measurements := p.measurements.map fun m ↦
    { m with validators := m.validators ++
        (m.conditionalValidators.filter fun cv ↦ store.hasDiagnosisResult cv.1).map Prod.snd }
  options := p.options
  diagnosers := p.diagnosers

def measurementsPass (conf : Conf) (p : PhaseState) : Bool :=
  p.phaseRecord.measurements.all fun m ↦
    match m.outcome with
    | .PASS => true
    | .FAIL => m.allowFail
    | .UNSET => conf.allowUnsetMeasurements
    | .PARTIALLY_SET => false
    | .SKIPPED => true

def measurementsMarginal (p : PhaseState) : Bool :=
  p.phaseRecord.measurements.any (·.marginal)

def setPrediagnosisPhaseOutcome (conf : Conf) (p : PhaseState) : PhaseState :=
  match p.phaseRecord.result with
  | none => p.setOutcome .ERROR
  | some result =>
    if result.isTerminal || p.hitRepeatLimit then p.setOutcome .ERROR
    else if result.isRepeat || result.isSkip then p.setOutcome .SKIP
    else if result.isFailSubtest then p.setOutcome .FAIL
    else if result.isFailAndContinue then p.setOutcome .FAIL
    else if !p.measurementsPass conf then
      let p := if p.options.stopOnMeasurementFail then p.setResult (.result .STOP) else p
      p.setOutcome .FAIL
    else
      { p with phaseRecord := { p.phaseRecord with
          marginal := some p.measurementsMarginal
          outcome := some .PASS } }

def setPostdiagnosisPhaseOutcome (p : PhaseState) : PhaseState :=
  if p.phaseRecord.outcome = some .ERROR then p
  else if p.phaseRecord.result.all (·.isTerminal) then p.setOutcome .ERROR
  else if p.phaseRecord.outcome ≠ some .PASS then p
  else if p.phaseRecord.failureDiagnosisResults ≠ [] then p.setOutcome .FAIL
  else p

end PhaseState

/-- The handler of an exception of a validator or a diagnoser: it becomes the
result of the phase unless that is terminal already. -/
def recordException (e : PyExc) : Exec Unit := do
  match ← Act.gets (·.phaseState.phaseRecord.result) with
  | none => Act.raise (.ofClass .AttributeError "'NoneType' object has no attribute 'is_terminal'")
  | some result =>
    if result.isTerminal then pure ()
    else Act.modify (RunState.mapPhaseState (·.setResult (.raised e)))

/-- One round of the loop of `PhaseState._finalize_measurements`. -/
def finalizeMeasurement (phaseSkipped : Bool) (m : Measurement) : Exec Measurement := do
  let m := if phaseSkipped && m.outcome == .UNSET then { m with outcome := .SKIPPED } else m
  if m.outcome == .PARTIALLY_SET then
    let (m, raised) ← m.validate
    match raised with
    | none => pure m
    | some e =>
      recordException e
      pure m
  else
    pure m

def finalizeMeasurementList (phaseSkipped : Bool) : List Measurement → Exec (List Measurement)
  | [] => pure []
  | m :: ms => do
    let m ← finalizeMeasurement phaseSkipped m
    let ms ← finalizeMeasurementList phaseSkipped ms
    pure (m :: ms)

def finalizeMeasurements : Exec Unit := do
  let result ← Act.gets (·.phaseState.phaseRecord.result)
  let measurements ← Act.gets (·.phaseState.measurements)
  let measurements ← finalizeMeasurementList (result.any (·.isSkip)) measurements
  Act.modify (RunState.mapPhaseState fun p ↦
    { p with measurements := measurements, phaseRecord.measurements := measurements })

/-- The body of the loop of `DiagnosesManager.execute_phase_diagnoser`. -/
def acceptPhaseDiagnosis (d : Diagnosis) : Exec Unit := do
  noteStep (.diagnosisAccepted d)
  Act.modify (RunState.mapPhaseState (·.addDiagnosis d))
  if !d.isInternal then recordDiagnosis d
  storeDiagnosis d

def executePhaseDiagnoser (diagnoser : Diagnoser) : Exec Unit :=
  exceptException (runDiagnoser diagnoser acceptPhaseDiagnosis) recordException

def executePhaseDiagnoserList : List Diagnoser → Exec Unit
  | [] => pure ()
  | d :: ds => do
    executePhaseDiagnoser d
    executePhaseDiagnoserList ds

def executePhaseDiagnosers : Exec Unit := do
  match ← Act.gets (·.phaseState.phaseRecord.result) with
  | none => pure ()
  | some result =>
    if result.isAborted || result.isRepeat || result.isSkip then pure ()
    else executePhaseDiagnoserList (← Act.gets (·.phaseState.diagnosers))

def finalizePhase (env : Env) : Exec Unit := do
  finalizeMeasurements
  Act.modify (RunState.mapPhaseState (·.setPrediagnosisPhaseOutcome env.conf))
  executePhaseDiagnosers
  Act.modify (RunState.mapPhaseState (·.setPostdiagnosisPhaseOutcome))
  let now ← timeMillis
  Act.modify (RunState.mapPhaseState fun p ↦
    { p with phaseRecord.endTimeMillis := some now, phaseRecord.options := some p.options })

/-- Entering `TestState.running_phase_context`. -/
def enterPhase (env : Env) (p : PhaseDescriptor) : Exec Unit := do
  if ← shared env Sync.enterRunningPhase then
    Act.raise (.ofClass .AssertionError "Phase already running!")
  else
    let now ← timeMillis
    noteStep (.phaseEntered p.id now)
    Act.modify fun s ↦ { s with phaseState := .fromDescriptor p s.testState.diagnosesStore now }

/-- Leaving `TestState.running_phase_context`; an exception of `finalize` leaves
the phase without a record. -/
def leavePhase (env : Env) : Exec Unit := do
  Act.catching (finalizePhase env) fun e ↦ do
    noteStep .phaseLost
    Act.raise e
  Act.modify fun s ↦ s.mapTestRecord (·.addPhaseRecord s.phaseState.phaseRecord)
  shared env Sync.leaveRunningPhase

end OpenHtf
