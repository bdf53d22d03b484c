import OpenHtf.Lib.Dict
import OpenHtf.Record

/-!
# The record of a test

`test_record.TestRecord` with its caches of converted records, the conversions
to base types that fill them, and `diagnoses_lib.DiagnosesStore`.  What
`as_base_types` gives for an object is a structure of the keys of the dict; a
key that is not there is `none`.
-/

set_option autoImplicit false

namespace OpenHtf

/-! ## Conversions to base types -/

def PhaseResult.name : PhaseResult → String
  | CONTINUE => "CONTINUE"
  | FAIL_AND_CONTINUE => "FAIL_AND_CONTINUE"
  | REPEAT => "REPEAT"
  | SKIP => "SKIP"
  | STOP => "STOP"
  | FAIL_SUBTEST => "FAIL_SUBTEST"

def MeasurementOutcome.name : MeasurementOutcome → String
  | PASS => "PASS"
  | FAIL => "FAIL"
  | UNSET => "UNSET"
  | PARTIALLY_SET => "PARTIALLY_SET"
  | SKIPPED => "SKIPPED"

def Outcome.name : Outcome → String
  | PASS => "PASS"
  | FAIL => "FAIL"
  | ERROR => "ERROR"
  | TIMEOUT => "TIMEOUT"
  | ABORTED => "ABORTED"

def PhaseOutcome.name : PhaseOutcome → String
  | PASS => "PASS"
  | FAIL => "FAIL"
  | SKIP => "SKIP"
  | ERROR => "ERROR"

def SubtestOutcome.name : SubtestOutcome → String
  | PASS => "PASS"
  | FAIL => "FAIL"
  | STOP => "STOP"

def ConditionOn.name : ConditionOn → String
  | ALL => "ALL"
  | ANY => "ANY"
  | NOT_ANY => "NOT_ANY"
  | NOT_ALL => "NOT_ALL"

def PreviousPhases.name : PreviousPhases → String
  | LAST => "LAST"
  | ALL => "ALL"
  | SUBTEST => "SUBTEST"

def DiagPriority.name : DiagPriority → String
  | HIGHEST => "HIGHEST"
  | NORMAL => "NORMAL"
  | INFORMATIVE => "INFORMATIVE"

/-- The `phase_result` of an outcome: `None`, a string, or the dict of an
exception. -/
inductive ResultDict where
  | none
  | text (s : String)
  | excInfo (excType excVal : String)
  deriving DecidableEq

def PhaseExecutionOutcome.asBaseTypes : PhaseExecutionOutcome → ResultDict
  | timeout => .none
  | result r => .text r.name
  | raised e => .excInfo e.excType.name e.message
  | terminated => .text ""

structure MeasurementDict where
  name : String
  outcome : String
  validators : Option (List String)
  deriving DecidableEq

/-- A measurement at the end of its phase.  Its dict was made at the start of the
phase; `validate` writes the outcome to it, and the marking as skipped does not. -/
def Measurement.asBaseTypes (m : Measurement) : MeasurementDict where
  name := m.name
  outcome := match m.outcome with
    | .SKIPPED => MeasurementOutcome.UNSET.name
    | o => o.name
  validators := if m.validators.isEmpty then none else some (m.validators.map (·.text))

structure OptionsDict where
  runIf : Bool
  forceRepeat : Bool
  repeatOnMeasurementFail : Bool
  repeatOnTimeout : Bool
  repeatLimit : Option ℤ
  stopOnMeasurementFail : Bool
  deriving DecidableEq

def PhaseOptions.asBaseTypes (o : PhaseOptions) : OptionsDict where
  runIf := o.runIf.isSome
  forceRepeat := o.forceRepeat
  repeatOnMeasurementFail := o.repeatOnMeasurementFail
  repeatOnTimeout := o.repeatOnTimeout
  repeatLimit := o.repeatLimit
  stopOnMeasurementFail := o.stopOnMeasurementFail

/-- An entry of the attachments of a phase in a dict: the dict of an attachment,
or the object itself, which is not of a base type. -/
inductive AttachmentEntry where
  | dict (mimetype : Option String) (sha1 : String)
  | object (a : Attachment)
  deriving DecidableEq

/-- `Attachment._asdict`. -/
def Attachment.asDict (a : Attachment) : AttachmentEntry := .dict a.mimetype a.sha1

structure PhaseDict where
  descriptorId : ℕ
  name : String
  measurements : List MeasurementDict
  options : Option OptionsDict
  subtestName : Option String
  startTimeMillis : ℕ
  endTimeMillis : Option ℕ
  attachments : List (String × AttachmentEntry)
  diagnosisResults : List String
  failureDiagnosisResults : List String
  result : Option ResultDict
  outcome : Option String
  marginal : Option Bool
  deriving DecidableEq

def PhaseRecord.asBaseTypes (p : PhaseRecord) : PhaseDict where
  descriptorId := p.descriptorId
  name := p.name
  measurements := p.measurements.map (·.asBaseTypes)
  options := p.options.map (·.asBaseTypes)
  subtestName := p.subtestName
  startTimeMillis := p.startTimeMillis
  endTimeMillis := p.endTimeMillis
  attachments := p.attachments.map fun item ↦ (item.1, item.2.asDict)
  diagnosisResults := p.diagnosisResults.map (·.value)
  failureDiagnosisResults := p.failureDiagnosisResults.map (·.value)
  result := p.result.map (·.asBaseTypes)
  outcome := p.outcome.map (·.name)
  marginal := p.marginal

structure SubtestDict where
  name : Option String
  startTimeMillis : ℕ
  endTimeMillis : Option ℕ
  outcome : Option String
  deriving DecidableEq

def SubtestRecord.asBaseTypes (r : SubtestRecord) : SubtestDict where
  name := r.name
  startTimeMillis := r.startTimeMillis
  endTimeMillis := r.endTimeMillis
  outcome := r.outcome.map (·.name)

structure ConditionDict where
  condition : String
  diagnosisResults : List String
  deriving DecidableEq

def DiagnosisCondition.asBaseTypes (c : DiagnosisCondition) : ConditionDict where
  condition := c.condition.name
  diagnosisResults := c.diagnosisResults.map (·.value)

structure BranchDict where
  name : Option String
  diagCondition : ConditionDict
  branchTaken : Bool
  evaluatedMillis : ℕ
  deriving DecidableEq

def BranchRecord.asBaseTypes (b : BranchRecord) : BranchDict where
  name := b.name
  diagCondition := b.diagCondition.asBaseTypes
  branchTaken := b.branchTaken
  evaluatedMillis := b.evaluatedMillis

structure CheckpointDict where
  name : String
  action : String
  conditional : String ⊕ ConditionDict
  subtestName : Option String
  result : ResultDict
  evaluatedMillis : ℕ
  deriving DecidableEq

def CheckpointRecord.asBaseTypes (c : CheckpointRecord) : CheckpointDict where
  name := c.name
  action := c.action.name
  conditional := c.conditional.map (·.name) (·.asBaseTypes)
  subtestName := c.subtestName
  result := c.result.asBaseTypes
  evaluatedMillis := c.evaluatedMillis

structure DiagnosisDict where
  result : String
  description : String
  component : Option DiagnosisComponent
  priority : String
  isFailure : Option Bool
  isInternal : Option Bool
  deriving DecidableEq

/-- The two flags are serialised only when they are set. -/
def Diagnosis.asBaseTypes (d : Diagnosis) : DiagnosisDict where
  result := d.result.value
  description := d.description
  component := d.component
  priority := d.priority.name
  isFailure := if d.isFailure then some true else none
  isInternal := if d.isInternal then some true else none

/-- `logs.LogRecord`, a named tuple of base types. -/
structure LogRecord where
  level : ℕ
  loggerName : String
  source : String
  lineno : ℕ
  timestampMillis : ℕ
  message : String
  deriving DecidableEq

/-! ## The record -/

structure TestRecord where
  startTimeMillis : ℕ := 0
  endTimeMillis : Option ℕ := none
  outcome : Option Outcome := none
  outcomeDetails : List OutcomeDetails := []
  phases : List PhaseRecord := []
  subtests : List SubtestRecord := []
  branches : List BranchRecord := []
  checkpoints : List CheckpointRecord := []
  diagnoses : List Diagnosis := []
  logRecords : List LogRecord := []
  marginal : Option Bool := none
  cachedPhases : List PhaseDict := []
  cachedSubtests : List SubtestDict := []
  cachedBranches : List BranchDict := []
  cachedCheckpoints : List CheckpointDict := []
  cachedDiagnoses : List DiagnosisDict := []
  cachedLogRecords : List LogRecord := []

structure TestRecordDict where
  startTimeMillis : ℕ
  endTimeMillis : Option ℕ
  outcome : Option String
  outcomeDetails : List OutcomeDetails
  marginal : Option Bool
  phases : List PhaseDict
  subtests : List SubtestDict
  branches : List BranchDict
  checkpoints : Option (List CheckpointDict) := none
  diagnoses : List DiagnosisDict
  logRecords : List LogRecord
  deriving DecidableEq

namespace TestRecord

def addOutcomeDetails (r : TestRecord) (code description : String) : TestRecord :=
  { r with outcomeDetails := r.outcomeDetails ++ [⟨code, description⟩] }

def addPhaseRecord (r : TestRecord) (p : PhaseRecord) : TestRecord :=
  { r with
    phases := r.phases ++ [p]
    cachedPhases := r.cachedPhases ++ [p.asBaseTypes] }

def addSubtestRecord (r : TestRecord) (s : SubtestRecord) : TestRecord :=
  { r with
    subtests := r.subtests ++ [s]
    cachedSubtests := r.cachedSubtests ++ [s.asBaseTypes] }

def addBranchRecord (r : TestRecord) (b : BranchRecord) : TestRecord :=
  { r with
    branches := r.branches ++ [b]
    cachedBranches := r.cachedBranches ++ [b.asBaseTypes] }

def addCheckpointRecord (r : TestRecord) (c : CheckpointRecord) : TestRecord :=
  { r with
    checkpoints := r.checkpoints ++ [c]
    cachedCheckpoints := r.cachedCheckpoints ++ [c.asBaseTypes] }

def addDiagnosis (r : TestRecord) (d : Diagnosis) : TestRecord :=
  { r with
    diagnoses := r.diagnoses ++ [d]
    cachedDiagnoses := r.cachedDiagnoses ++ [d.asBaseTypes] }

def addLogRecord (r : TestRecord) (l : LogRecord) : TestRecord :=
  { r with
    logRecords := r.logRecords ++ [l]
    cachedLogRecords := r.cachedLogRecords ++ [l] }

/-- `TestRecord.as_base_types`, which has no key for the checkpoints. -/
def asBaseTypes (r : TestRecord) : TestRecordDict where
  startTimeMillis := r.startTimeMillis
  endTimeMillis := r.endTimeMillis
  outcome := r.outcome.map (·.name)
  outcomeDetails := r.outcomeDetails
  marginal := r.marginal
  phases := r.cachedPhases
  subtests := r.cachedSubtests
  branches := r.cachedBranches
  diagnoses := r.cachedDiagnoses
  logRecords := r.cachedLogRecords

end TestRecord

/-! ## The store of diagnoses -/

/-- The keys of the dict are results, as strings. -/
structure DiagnosesStore where
  diagnosesByResults : List (String × Diagnosis) := []
  diagnoses : List Diagnosis := []
  deriving DecidableEq

namespace DiagnosesStore

def addDiagnosis (s : DiagnosesStore) (d : Diagnosis) : DiagnosesStore where
  diagnosesByResults := dictSet d.result.value d s.diagnosesByResults
  diagnoses := s.diagnoses ++ [d]

def hasDiagnosisResult (s : DiagnosesStore) (r : DiagResult) : Bool :=
  s.diagnosesByResults.any fun item ↦ item.1 == r.value

def getDiagnosis (s : DiagnosesStore) (r : DiagResult) : Option Diagnosis :=
  s.diagnosesByResults.lookup r.value

end DiagnosesStore

def DiagnosisCondition.check (c : DiagnosisCondition) (store : DiagnosesStore) : Bool :=
  match c.condition with
  | .ALL => c.diagnosisResults.all store.hasDiagnosisResult
  | .ANY => c.diagnosisResults.any store.hasDiagnosisResult
  | .NOT_ANY => !c.diagnosisResults.any store.hasDiagnosisResult
  | .NOT_ALL => !c.diagnosisResults.all store.hasDiagnosisResult

end OpenHtf
