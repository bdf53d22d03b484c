import Mathlib.Logic.Function.Basic
import Mathlib.Tactic.Simps.Basic
import OpenHtf.Lib.Action
import OpenHtf.PhaseNode
import OpenHtf.Sync

/-!
# The state of a run

`RunState` is what the phase executor works on: the `TestState`, the
`PhaseState` of the running phase and the state shared with the aborting
thread.  `World` adds what only the test executor sees.  `records`, `steps`,
`callstack` and `events` are history: they record what the executor does and
nothing reads them.
-/

set_option autoImplicit false

namespace OpenHtf

inductive Status where
  | WAITING_FOR_TEST_START | RUNNING | COMPLETED
  deriving DecidableEq

/-- An instance of a plug class; `id` is the object. -/
structure PlugInstance where
  id : ℕ
  plugType : ℕ
  deriving DecidableEq

/-- The keys are the class objects and the plug names. -/
structure PlugManager where
  plugTypes : List PlugCls := []
  plugsByType : List (ℕ × PlugInstance) := []
  plugsByName : List (String × PlugInstance) := []

structure PhaseState where
  phaseRecord : PhaseRecord
  measurements : List Measurement := []
  options : PhaseOptions := {}
  diagnosers : List Diagnoser := []
  hitRepeatLimit : Bool := false

structure TestState where
  status : Status := .WAITING_FOR_TEST_START
  testRecord : TestRecord := {}
  plugManager : PlugManager := {}
  diagnosesStore : DiagnosesStore := {}

structure TestOptions where
  failureExceptions : List ExcClass := []
  stopOnFirstFailure : Bool := false
  diagnosers : List Diagnoser := []

/-- The configuration keys that the executor reads. -/
structure Conf where
  stopOnFirstFailure : Bool := false
  allowUnsetMeasurements : Bool := false

/-- What stays the same during a run: the options, the configuration and the
schedule of the thread that calls `abort`. -/
structure Env where
  testOptions : TestOptions := {}
  conf : Conf := {}
  schedule : ℕ → ℕ := fun _ ↦ 0

/-! ## History -/

/-- Single steps on which the outcome of a run and its record can turn: a callable
of the user other than a phase function raised, an exception came out of a test
diagnoser, `test_record.phases[-1]` was looked up or changed, `_execute_node` met
a class it does not know, a phase thread was found dead without an outcome; a
phase was entered, and was lost when its end raised; a checkpoint was evaluated or
skipped; the condition of a branch was evaluated, and the branch was lost when its
body raised; a subtest was completed, a diagnosis accepted; a plug was constructed
or torn down. -/
inductive Step where
  | raised (e : PyExc)
  | testDiagnoserRaised (e : PyExc)
  | lastPhaseRecord (recorded : Bool)
  | lastPhaseRecordChanged
  | unhandledNode
  | threadDied (killed : Bool)
  | finalizedNormally
  | finalizedFromOutcome (o : PhaseExecutionOutcome)
  | finalizedAborted
  | phaseEntered (descriptorId startTimeMillis : ℕ)
  | phaseLost
  | checkpointMet (name : String) (evaluatedMillis : ℕ)
  | branchEvaluated (name : Option String) (evaluatedMillis : ℕ) (inBranch : Bool)
  | branchLost
  | subtestCompleted (name : Option String) (startTimeMillis : ℕ)
  | diagnosisAccepted (d : Diagnosis)
  | plugConstructed (p : PlugInstance) (setsLogger : Bool)
  | plugTornDown (p : PlugInstance)
  deriving DecidableEq

/-- An enclosing activity of the test executor: `_execute_node`, the passage
through the nodes of a sequence, a branch whose condition the store met, a
subtest with the number of its record. -/
inductive Frame where
  | node (inTeardown : Bool)
  | sequence (s : PhaseSequence)
  | branch (c : DiagnosisCondition) (store : DiagnosesStore)
  | subtest (rec : ℕ)

def Frame.isBranch : Frame → Bool
  | branch _ _ => true
  | _ => false

inductive ExecutorReturn where
  | CONTINUE | TERMINAL
  deriving DecidableEq

/-- What the test executor does to the nodes of the tree.  `ctx` are the
enclosing activities, innermost first.  A phase, a checkpoint or the condition
of a branch is `executing` and a phase or a checkpoint has then `ended`, or it
is `skipped`; the records of the skip are those with the numbers from `first` to
`next`.  A sequence object is `reached` alone or as a part of a group, and then
`completed` or, when an exception escapes from it, `abandoned`. -/
inductive Event where
  | visited (ctx : List Frame) (n : PhaseNode) (inTeardown : Bool)
  | executing (ctx : List Frame) (n : PhaseNode) (inTeardown : Bool)
  | ended (ctx : List Frame) (n : PhaseNode) (inTeardown : Bool) (o : PhaseExecutionOutcome)
  | skipped (ctx : List Frame) (n : PhaseNode) (first next : ℕ)
  | subtestFailed (rec : ℕ)
  | subtestRecorded (rec : ℕ) (outerFailed : Bool) (ret : ExecutorReturn) (r : SubtestRecord)
  | reached (s : PhaseSequence) (inTeardown subtestFailed : Bool)
  | completed (s : PhaseSequence) (inTeardown subtestFailed : Bool)
  | abandoned (s : PhaseSequence) (inTeardown subtestFailed : Bool)
  | groupMain (ctx : List Frame) (g : PhaseGroup) (inTeardown subtestFailed : Bool)
  | groupTeardown (ctx : List Frame) (g : PhaseGroup) (inTeardown : Bool)
  | groupCompleted (ctx : List Frame) (g : PhaseGroup)

/-! ## The state -/

/-- `phaseState` is the one of the last `running_phase_context`; `moment`
counts the calls of user code and the readings of the clock; `records` are the
values that the test record has had. -/
structure RunState where
  testState : TestState := {}
  phaseState : PhaseState := { phaseRecord := { descriptorId := 0, name := "" } }
  moment : ℕ := 1
  sync : Sync := {}
  records : List TestRecord := []
  steps : List Step := []

/-- `testState` of `run` counts from the moment at which it is created;
`subtestRecords` are the `SubtestRecord` objects by the order of their making. -/
structure World where
  run : RunState := {}
  testStateCreated : Bool := false
  lastOutcome : Option PhaseExecutionOutcome := none
  lastExecutionUnit : Option String := none
  subtestRecords : ℕ → SubtestRecord := fun _ ↦ { name := none }
  subtestsMade : ℕ := 0
  executionFinished : Bool := false
  callstack : List Frame := []
  events : List Event := []

/-- A statement of the phase executor. -/
abbrev Exec := Act RunState PyExc

/-- A statement of the test executor. -/
abbrev Executor := Act World PyExc

namespace RunState

def testRecord (s : RunState) : TestRecord := s.testState.testRecord

def mapTestState (f : TestState → TestState) (s : RunState) : RunState :=
  { s with testState := f s.testState, records := s.records ++ [(f s.testState).testRecord] }

def mapTestRecord (f : TestRecord → TestRecord) (s : RunState) : RunState :=
  s.mapTestState fun t ↦ { t with testRecord := f t.testRecord }

def mapPhaseState (f : PhaseState → PhaseState) (s : RunState) : RunState :=
  { s with phaseState := f s.phaseState }

def mapSync (f : Sync → Sync) (s : RunState) : RunState := { s with sync := f s.sync }

def addStep (x : Step) (s : RunState) : RunState := { s with steps := s.steps ++ [x] }

@[simp] theorem addStep_testState (x : Step) (s : RunState) :
    (s.addStep x).testState = s.testState := rfl

@[simp] theorem addStep_moment (x : Step) (s : RunState) : (s.addStep x).moment = s.moment := rfl

end RunState

namespace World

@[simps -fullyApplied] def setRun (s : RunState) (w : World) : World := { w with run := s }

@[simp] theorem setRun_setRun (s s' : RunState) (w : World) :
    (w.setRun s).setRun s' = w.setRun s' := rfl

@[simps -fullyApplied] def setCallstack (c : List Frame) (w : World) : World := { w with callstack := c }

@[simps -fullyApplied] def addEvent (e : Event) (w : World) : World := { w with events := w.events ++ [e] }

/-- A branch that was taken is being executed. -/
def inBranch (w : World) : Bool := w.callstack.any Frame.isBranch

def subtestFails (w : World) (rec : Option ℕ) : Bool := rec.any fun i ↦ (w.subtestRecords i).isFail

@[simps -fullyApplied] def setSubtestRecord (i : ℕ) (r : SubtestRecord) (w : World) : World :=
  { w with subtestRecords := Function.update w.subtestRecords i r }

def setSubtestOutcome (i : ℕ) (o : SubtestOutcome) (w : World) : World :=
  w.setSubtestRecord i { w.subtestRecords i with outcome := some o }

end World

/-! ## Statements of the phase executor -/

/-- An operation on the state shared with the aborting thread, which may be
overtaken by steps of that thread. -/
def shared {α : Type} (env : Env) (op : Sync → α × Sync) : Exec α := fun s ↦
  let (a, sync) := op (s.sync.interfere env.schedule)
  (.ok a, { s with sync := sync })

/-- Record what the executor thread does in the history of the shared state. -/
def noteThread (f : Sync → Sync) : Exec Unit := Act.modify (RunState.mapSync f)

def noteStep (x : Step) : Exec Unit := Act.modify (RunState.addStep x)

/-- Call a callable of the user. -/
def callUser {α : Type} (f : ℕ → α) : Exec α := fun s ↦
  (.ok (f s.moment), { s with moment := s.moment + 1 })

def timeMillis : Exec ℕ := callUser id

/-- Call a callable of the user that may raise. -/
def callRaising {α : Type} (f : ℕ → Except PyExc α) : Exec α := do
  match ← callUser f with
  | .ok a => pure a
  | .error e =>
    noteStep (.raised e)
    Act.raise e

/-- `try: x except Exception as e: handler(e)`. -/
def exceptException {α : Type} (x : Exec α) (handler : PyExc → Exec α) : Exec α :=
  Act.catching x fun e ↦ if e.isException then handler e else Act.raise e

/-! ## Statements of the test executor -/

/-- A statement that works on the state of the run only. -/
def onRun {α : Type} (x : Exec α) : Executor α := fun w ↦
  let (r, s) := x w.run
  (r, w.setRun s)

/-- Run a statement as a part of the activity `f`. -/
def within {α : Type} (f : Frame) (x : Executor α) : Executor α := fun w ↦
  let (r, w') := x (w.setCallstack (f :: w.callstack))
  (r, w'.setCallstack w.callstack)

def noteEvent (e : List Frame → Event) : Executor Unit :=
  Act.modify fun w ↦ w.addEvent (e w.callstack)

/-! ## Their weakest preconditions -/

section Rules

variable {α : Type} {Q : α → RunState → Prop} {R : α → World → Prop}
  {E : PyExc → RunState → Prop} {F : PyExc → World → Prop}

@[simp] theorem wp_shared {env : Env} {op : Sync → α × Sync} :
    Act.wp (shared env op) Q E = fun s ↦
      Q (op (s.sync.interfere env.schedule)).1
        { s with sync := (op (s.sync.interfere env.schedule)).2 } := rfl

@[simp] theorem wp_callUser {f : ℕ → α} :
    Act.wp (callUser f) Q E = fun s ↦ Q (f s.moment) { s with moment := s.moment + 1 } := rfl

@[simp] theorem wp_exceptException {x : Exec α} {handler : PyExc → Exec α} :
    Act.wp (exceptException x handler) Q E =
      Act.wp x Q fun e s ↦ if e.isException then Act.wp (handler e) Q E s else E e s := by
  simp [exceptException]

@[simp] theorem wp_onRun {x : Exec α} :
    Act.wp (onRun x) R F = fun w ↦
      Act.wp x (fun a s ↦ R a (w.setRun s)) (fun e s ↦ F e (w.setRun s)) w.run := by
  funext w
  simp only [Act.wp, onRun]
  rcases x w.run with ⟨_ | _, s'⟩ <;> rfl

@[simp] theorem wp_within {f : Frame} {x : Executor α} :
    Act.wp (within f x) R F = fun w ↦
      Act.wp x (fun a w' ↦ R a (w'.setCallstack w.callstack))
        (fun e w' ↦ F e (w'.setCallstack w.callstack)) (w.setCallstack (f :: w.callstack)) := by
  funext w
  simp only [Act.wp, within]
  rcases x (w.setCallstack (f :: w.callstack)) with ⟨_ | _, w'⟩ <;> rfl

end Rules

end OpenHtf
