import Mathlib.Data.Int.Notation
import Mathlib.Data.List.Basic

/-!
# Exceptions, results and the records of a test run

The data of `test_record`, of the result types of `phase_descriptor` and
`phase_executor`, of measurements and of diagnoses.  A callable supplied by the
user (a validator, a `run_if`, the body of a phase) is a function of the moment
at which it is called, so nothing is assumed about how its answers depend on
what happened before.
-/

set_option autoImplicit false

namespace OpenHtf

/-- Exception classes: those the framework itself raises or names, and the
user's own. -/
inductive ExcClass where
  | BaseException | Exception | SystemExit | ThreadTerminationError
  | AssertionError | AttributeError | IndexError | KeyError | TypeError | ValueError
  | InvalidDiagnosisError | InvalidDimensionsError | InvalidPhaseResultError | InvalidPlugError
  | MeasurementNotSetError | NoPhasesFoundError | TestExecutionError | TestStopError
  | user (name : String)
  deriving DecidableEq

namespace ExcClass

def name : ExcClass → String
  | BaseException => "BaseException"
  | Exception => "Exception"
  | SystemExit => "SystemExit"
  | ThreadTerminationError => "ThreadTerminationError"
  | AssertionError => "AssertionError"
  | AttributeError => "AttributeError"
  | IndexError => "IndexError"
  | KeyError => "KeyError"
  | TypeError => "TypeError"
  | ValueError => "ValueError"
  | InvalidDiagnosisError => "InvalidDiagnosisError"
  | InvalidDimensionsError => "InvalidDimensionsError"
  | InvalidPhaseResultError => "InvalidPhaseResultError"
  | InvalidPlugError => "InvalidPlugError"
  | MeasurementNotSetError => "MeasurementNotSetError"
  | NoPhasesFoundError => "NoPhasesFoundError"
  | TestExecutionError => "TestExecutionError"
  | TestStopError => "TestStopError"
  | user name => name

end ExcClass

/-- A raised exception: its class, the proper ancestors of the class, and what
`str` gives for it. -/
structure PyExc where
  excType : ExcClass
  bases : List ExcClass
  message : String
  deriving DecidableEq

namespace PyExc

def isinstance (e : PyExc) (c : ExcClass) : Bool := e.excType == c || e.bases.contains c

/-- Whether `except Exception` catches it; `SystemExit` and its kin are not caught. -/
def isException (e : PyExc) : Bool := e.isinstance .Exception

/-- An exception of one of the framework's classes below `Exception`. -/
def ofClass (c : ExcClass) (message : String) : PyExc :=
  ⟨c, [.Exception, .BaseException], message⟩

theorem isException_ofClass (c : ExcClass) (message : String) :
    (ofClass c message).isException = true := by
  simp [ofClass, isException, isinstance]

end PyExc

/-! ## Phase results -/

inductive PhaseResult where
  | CONTINUE | FAIL_AND_CONTINUE | REPEAT | SKIP | STOP | FAIL_SUBTEST
  deriving DecidableEq

/-- `phase_executor.PhaseExecutionOutcome`, by the kind of its `phase_result`:
`None`, a `PhaseResult`, an `ExceptionInfo` or a `ThreadTerminationError`. -/
inductive PhaseExecutionOutcome where
  | timeout
  | result (r : PhaseResult)
  | raised (e : PyExc)
  | terminated
  deriving DecidableEq

namespace PhaseExecutionOutcome

def isAborted (o : PhaseExecutionOutcome) : Bool := o == terminated

def isFailAndContinue (o : PhaseExecutionOutcome) : Bool := o == result .FAIL_AND_CONTINUE

def isFailSubtest (o : PhaseExecutionOutcome) : Bool := o == result .FAIL_SUBTEST

def isRepeat (o : PhaseExecutionOutcome) : Bool := o == result .REPEAT

def isSkip (o : PhaseExecutionOutcome) : Bool := o == result .SKIP

def isTimeout (o : PhaseExecutionOutcome) : Bool := o == timeout

def raisedException : PhaseExecutionOutcome → Bool
  | raised _ => true
  | terminated => true
  | _ => false

def isTerminal (o : PhaseExecutionOutcome) : Bool :=
  o.raisedException || o.isTimeout || o == result .STOP

end PhaseExecutionOutcome

/-! ## Diagnoses and measurements -/

/-- A member of a `DiagResultEnum`: the enumeration and the value of the member
in it.  The members are strings, so those of two enumerations are equal, and are
one key of a dict, when their values are. -/
structure DiagResult where
  resultType : ℕ
  value : String
  deriving DecidableEq

inductive DiagPriority where
  | HIGHEST | NORMAL | INFORMATIVE
  deriving DecidableEq

structure DiagnosisComponent where
  name : String
  identifier : String
  deriving DecidableEq

structure Diagnosis where
  result : DiagResult
  description : String := ""
  component : Option DiagnosisComponent := none
  priority : DiagPriority := .NORMAL
  isFailure : Bool := false
  isInternal : Bool := false
  not_internal_failure : (isInternal && isFailure) = false := by decide
  deriving DecidableEq

/-- `attr.evolve(diag, is_failure=True)`, with the check made of every diagnosis. -/
def Diagnosis.evolveIsFailure (d : Diagnosis) : Except PyExc Diagnosis :=
  if h : d.isInternal then
    .error (.ofClass .InvalidDiagnosisError "Internal diagnoses cannot be failures.")
  else .ok { d with isFailure := true, not_internal_failure := by simp [h] }

theorem Diagnosis.isException_of_evolveIsFailure {d : Diagnosis} {e : PyExc}
    (h : d.evolveIsFailure = .error e) : e.isException = true := by
  unfold evolveIsFailure at h
  split at h
  · obtain rfl := Except.error.inj h
    exact PyExc.isException_ofClass _ _
  · cases h

inductive MeasurementOutcome where
  | PASS | FAIL | UNSET | PARTIALLY_SET | SKIPPED
  deriving DecidableEq

/-- The member of the enumeration as `str` writes it. -/
def MeasurementOutcome.text : MeasurementOutcome → String
  | PASS => "Outcome.PASS"
  | FAIL => "Outcome.FAIL"
  | UNSET => "Outcome.UNSET"
  | PARTIALLY_SET => "Outcome.PARTIALLY_SET"
  | SKIPPED => "Outcome.SKIPPED"

/-- A validator: what `str` gives for it, what it answers when called on the
measured value, and its `is_marginal`, if it has one. -/
structure Validator where
  text : String
  call : ℕ → Except PyExc Bool
  isMarginal : Option (ℕ → Except PyExc Bool) := none

/-- `measurements.Measurement`; `dimensions` is the number of dimensions, and
`measuredValue` is what `str` gives for the value object. -/
structure Measurement where
  name : String
  dimensions : ℕ := 0
  validators : List Validator := []
  conditionalValidators : List (DiagResult × Validator) := []
  allowFail : Bool := false
  measuredValue : String := "UNSET"
  outcome : MeasurementOutcome := .UNSET
  marginal : Bool := false

/-- `phase_descriptor.PhaseOptions`, as far as the executor reads them. -/
structure PhaseOptions where
  runIf : Option (ℕ → Except PyExc Bool) := none
  forceRepeat : Bool := false
  repeatOnMeasurementFail : Bool := false
  repeatOnTimeout : Bool := false
  repeatLimit : Option ℤ := none
  stopOnMeasurementFail : Bool := false

/-! ## Records -/

inductive Outcome where
  | PASS | FAIL | ERROR | TIMEOUT | ABORTED
  deriving DecidableEq

inductive PhaseOutcome where
  | PASS | FAIL | SKIP | ERROR
  deriving DecidableEq

inductive SubtestOutcome where
  | PASS | FAIL | STOP
  deriving DecidableEq

structure OutcomeDetails where
  code : String
  description : String
  deriving DecidableEq

/-- What is kept of an attachment; `data` is read from its file. -/
structure Attachment where
  mimetype : Option String
  sha1 : String
  data : List UInt8
  deriving DecidableEq

/-- `attachments` are the items of a dict. -/
structure PhaseRecord where
  descriptorId : ℕ
  name : String
  measurements : List Measurement := []
  options : Option PhaseOptions := none
  subtestName : Option String := none
  startTimeMillis : ℕ := 0
  endTimeMillis : Option ℕ := none
  attachments : List (String × Attachment) := []
  diagnosisResults : List DiagResult := []
  failureDiagnosisResults : List DiagResult := []
  result : Option PhaseExecutionOutcome := none
  outcome : Option PhaseOutcome := none
  marginal : Option Bool := none
  attachments_nodup : (attachments.map Prod.fst).Nodup := by first | exact List.nodup_nil | simp

structure SubtestRecord where
  name : Option String
  startTimeMillis : ℕ := 0
  endTimeMillis : Option ℕ := none
  outcome : Option SubtestOutcome := none
  deriving DecidableEq

def SubtestRecord.isFail (r : SubtestRecord) : Bool := r.outcome == some .FAIL

inductive ConditionOn where
  | ALL | ANY | NOT_ANY | NOT_ALL
  deriving DecidableEq

structure DiagnosisCondition where
  condition : ConditionOn
  diagnosisResults : List DiagResult
  deriving DecidableEq

inductive PreviousPhases where
  | LAST | ALL | SUBTEST
  deriving DecidableEq

structure BranchRecord where
  name : Option String
  diagCondition : DiagnosisCondition
  branchTaken : Bool
  evaluatedMillis : ℕ
  deriving DecidableEq

structure CheckpointRecord where
  name : String
  action : PhaseResult
  conditional : PreviousPhases ⊕ DiagnosisCondition
  subtestName : Option String
  result : PhaseExecutionOutcome
  evaluatedMillis : ℕ
  deriving DecidableEq

end OpenHtf
