import OpenHtf.Lib.ReentrantLock

/-!
# What the executor thread shares with the thread that calls `abort`

The events, the locks and the current phase thread, the steps of
`TestExecutor.abort` on them, and the operations of the executor thread.  Event
and lock operations are atomic.  A section of a lock with a single access in it
is one step.
-/

set_option autoImplicit false

namespace OpenHtf

/-- The two threads that take `_teardown_phases_lock`. -/
inductive Thread where
  | executor
  | aborter
  deriving DecidableEq

/-- A `PhaseExecutorThread`, with how often the executor thread had entered
`_teardown_phases_lock` when it started it. -/
structure PhaseThread where
  number : ℕ
  depth : ℕ
  deriving DecidableEq

/-- The step that `abort` takes next; `idle` outside a call.  `force` is the
argument of `_stop_phase_executor`. -/
inductive AbortPc where
  | idle
  | checkAbort
  | setAbort
  | setFullAbort
  | readPhaseExec (force : Bool)
  | acquireTeardownLock
  | setStopping (force : Bool)
  | readPhaseThread (force : Bool)
  | kill (thread : PhaseThread) (force : Bool)
  | stopRunningPhase (force : Bool)
  | resetStop (force : Bool)
  | releaseTeardownLock
  deriving DecidableEq

/-- The history of the two threads.  A `depth` is how often the executor thread
has entered `_teardown_phases_lock` at that moment; `abortReturned` tells
whether it was outside and had a start pending, and `groupEntered` is the entry
into `_execute_phase_group`. -/
inductive ThreadEvent where
  | stopChecked (set : Bool) (depth : ℕ)
  | started (thread : PhaseThread)
  | joined (thread : PhaseThread) (killed : Bool) (depth : ℕ)
  | repeated (depth : ℕ)
  | groupEntered (depth : ℕ)
  | stoppingSet (depth : ℕ)
  | killed (thread : PhaseThread) (depth : ℕ)
  | abortReturned (startPending : Bool)
  deriving DecidableEq

/-- The shared state.  `_abort`, `_full_abort`, `_phase_exec` (whether it is
set) and `_teardown_phases_lock` are fields of `TestExecutor`; the lock of the
current phase thread, which only the executor thread holds for longer than a
step, that thread, and `_stopping` are fields of `PhaseExecutor`;
`running_phase_state` (whether it is set) is one of `TestState`.  `abortCalls`
is the number of calls of `abort` to come.  `startPending` and `history` are
history: a start is pending when the executor thread has decided to start a
phase or to enter a group and does not look at `_abort` before it does. -/
structure Sync where
  abort : Bool := false
  fullAbort : Bool := false
  phaseExec : Bool := false
  teardownPhasesLock : ReentrantLock Thread := .free
  currentPhaseThreadLock : Bool := false
  currentPhaseThread : Option PhaseThread := none
  stopping : Bool := false
  runningPhaseState : Bool := false
  threads : ℕ := 0
  killedThreads : List PhaseThread := []
  abortPc : AbortPc := .idle
  abortCalls : ℕ := 0
  operations : ℕ := 0
  startPending : Bool := false
  history : List ThreadEvent := []
  deriving DecidableEq

namespace Sync

/-- How often the executor thread has entered the teardown lock. -/
def depth (s : Sync) : ℕ := s.teardownPhasesLock.depth .executor

def record (e : ThreadEvent) (s : Sync) : Sync := { s with history := s.history ++ [e] }

def abortReturn (s : Sync) : Sync :=
  record (.abortReturned (s.startPending && s.depth == 0)) { s with abortPc := .idle }

/-- One step of the thread that calls `abort`; without effect while it waits
for a lock, or when there is nothing left to do. -/
def abortStep (s : Sync) : Sync :=
  match s.abortPc with
  | .idle =>
      match s.abortCalls with
      | 0 => s
      | n + 1 => { s with abortCalls := n, abortPc := .checkAbort }
  | .checkAbort => { s with abortPc := if s.abort then .setFullAbort else .setAbort }
  | .setFullAbort => { s with fullAbort := true, abortPc := .readPhaseExec true }
  | .setAbort => { s with abort := true, abortPc := .readPhaseExec false }
  | .readPhaseExec force =>
      if s.phaseExec then
        { s with abortPc := if force then .setStopping true else .acquireTeardownLock }
      else s.abortReturn
  | .acquireTeardownLock =>
      match s.teardownPhasesLock.tryAcquire .aborter with
      | some l => { s with teardownPhasesLock := l, abortPc := .setStopping false }
      | none => s.abortReturn
  | .setStopping force =>
      record (.stoppingSet s.depth) { s with stopping := true, abortPc := .readPhaseThread force }
  | .readPhaseThread force =>
      if s.currentPhaseThreadLock then s
      else
        match s.currentPhaseThread with
        | none => { s with abortPc := .resetStop force }
        | some t => { s with abortPc := .kill t force }
  | .kill t force =>
      -- The wait for the thread to die is time passing before the next step.
      record (.killed t s.depth)
        { s with killedThreads := t :: s.killedThreads, abortPc := .stopRunningPhase force }
  | .stopRunningPhase force => { s with runningPhaseState := false, abortPc := .resetStop force }
  | .resetStop force =>
      if force then abortReturn { s with stopping := false }
      else { s with stopping := false, abortPc := .releaseTeardownLock }
  | .releaseTeardownLock =>
      abortReturn { s with teardownPhasesLock := s.teardownPhasesLock.release .aborter }

/-- Before its operation number `n` the executor thread is overtaken by
`schedule n` steps of the other thread. -/
def interfere (schedule : ℕ → ℕ) (s : Sync) : Sync :=
  { abortStep^[schedule s.operations] s with operations := s.operations + 1 }

/-! ## Operations of the executor thread

Each gives the value that the executor thread reads, if any, and the new state. -/

def abortIsSet (s : Sync) : Bool × Sync := (s.abort, s)

def fullAbortIsSet (s : Sync) : Bool × Sync := (s.fullAbort, s)

def setPhaseExec (s : Sync) : Unit × Sync := ((), { s with phaseExec := true })

def stoppingIsSet (s : Sync) : Bool × Sync :=
  (s.stopping, record (.stopChecked s.stopping s.depth)
    { s with startPending := s.startPending && !s.stopping })

/-- Whether the aborting thread is not inside the teardown lock. -/
def aborterOutside (s : Sync) : Bool := s.teardownPhasesLock.depth .aborter == 0

def takeTeardownPhasesLock (s : Sync) : Sync :=
  { s with
    startPending := false
    teardownPhasesLock := (s.teardownPhasesLock.tryAcquire .executor).getD s.teardownPhasesLock }

/-- Enter `_teardown_phases_lock`, waiting for the aborting thread to leave it:
its section is six steps long. -/
def acquireTeardownPhasesLock (s : Sync) : Unit × Sync :=
  ((), (runUntil aborterOutside abortStep 6 s).takeTeardownPhasesLock)

def releaseTeardownPhasesLock (s : Sync) : Unit × Sync :=
  ((), { s with
    startPending := false
    teardownPhasesLock := s.teardownPhasesLock.release .executor })

def acquireCurrentPhaseThreadLock (s : Sync) : Unit × Sync :=
  ((), { s with currentPhaseThreadLock := true })

def releaseCurrentPhaseThreadLock (s : Sync) : Unit × Sync :=
  ((), { s with currentPhaseThreadLock := false })

def startPhaseThread (s : Sync) : PhaseThread × Sync :=
  let t : PhaseThread := ⟨s.threads, s.depth⟩
  (t, record (.started t) { s with threads := s.threads + 1, startPending := false })

def setCurrentPhaseThread (t : Option PhaseThread) (s : Sync) : Unit × Sync :=
  ((), { s with currentPhaseThread := t })

/-- `join_or_die` sees the end of the thread; the result says whether `stop`
has killed it before. -/
def joinPhaseThread (t : PhaseThread) (s : Sync) : Bool × Sync :=
  let killed := s.killedThreads.contains t
  (killed, s.record (.joined t killed s.depth))

/-- Enter `running_phase_context`; the result is what its assertion looks at. -/
def enterRunningPhase (s : Sync) : Bool × Sync :=
  (s.runningPhaseState, { s with runningPhaseState := true })

def leaveRunningPhase (s : Sync) : Unit × Sync := ((), { s with runningPhaseState := false })

def setStartPending (b : Bool) (s : Sync) : Sync := { s with startPending := b }

/-- `_execute_phase_group` begins. -/
def enterGroup (s : Sync) : Unit × Sync :=
  ((), record (.groupEntered s.depth) (s.setStartPending false))

/-- The executor thread has decided to run the phase once more. -/
def repeatPhase (s : Sync) : Sync := record (.repeated s.depth) (s.setStartPending true)

end Sync

end OpenHtf
