import OpenHtf.Lib.Action
import OpenHtf.TestExecutor

/-!
# What a plan means

A tree of phases is a program: its phases are told how they went, and everything
else follows from that.  The meaning of a tree is a machine that is told, phase
by phase, the outcome, the diagnoses and which phase records say FAIL, and before
each node whether the test has been aborted.  It knows nothing of threads, plugs,
locks and clocks.  It says which phases and checkpoints are executed or skipped,
how each subtest ends and which branches are taken.
-/

set_option autoImplicit false

namespace OpenHtf

open Act

/-! ## The machine -/

/-- What the machine is told: whether the test has been aborted when a node is
about to begin, and what a phase left behind, its outcome, the diagnoses so far
and for each phase record so far whether it says FAIL and in which subtest. -/
inductive PlanAnswer where
  | aborted (b : Bool)
  | phase (o : PhaseExecutionOutcome) (store : DiagnosesStore) (failures : List (Option (Option String)))

/-- What the machine says. -/
inductive PlanEntry where
  | executed (n : PhaseNode) (inTeardown : Bool) (o : PhaseExecutionOutcome)
  | skipped (n : PhaseNode)
  | subtest (name : Option String) (outcome : Option SubtestOutcome)

/-- The name and the failure of a subtest, the branches with their names. -/
structure PlanState where
  answers : List PlanAnswer
  subtest : Option (Option String × Bool) := none
  store : DiagnosesStore := {}
  failures : List (Option (Option String)) := []
  entries : List PlanEntry := []
  branches : List (Option String × DiagnosisCondition × Bool) := []

namespace PlanState

def subtestFails (s : PlanState) : Bool := s.subtest.any (·.2)

def addEntry (e : PlanEntry) (s : PlanState) : PlanState := { s with entries := s.entries ++ [e] }

/-- A skip adds a phase record that does not say FAIL. -/
def skipPhase (p : PhaseDescriptor) (s : PlanState) : PlanState :=
  { s with failures := s.failures ++ [none], entries := s.entries ++ [.skipped (.phase p)] }

def addBranch (name : Option String) (c : DiagnosisCondition) (taken : Bool) (s : PlanState) : PlanState :=
  { s with branches := s.branches ++ [(name, c, taken)] }

/-- The phase records say what a checkpoint on earlier phases looks for. -/
def failed (previous : PreviousPhases) (s : PlanState) : Bool :=
  match previous, s.subtest with
  | .LAST, _ => s.failures.getLast?.any (·.isSome)
  | .SUBTEST, some (name, _) => s.failures.any (· == some name)
  | _, _ => s.failures.any (·.isSome)

/-- A checkpoint whose condition holds or does not. -/
def act (c : Checkpoint) (holds : Bool) (s : PlanState) : PhaseExecutionOutcome :=
  let r := if holds then c.action else .CONTINUE
  if r == .FAIL_SUBTEST && s.subtest.isNone then
    .raised (.ofClass .InvalidPhaseResultError
      "Checkpoint returned FAIL_SUBTEST, but subtest not running.")
  else .result r

/-- The outcome of a checkpoint. -/
def verdict (c : Checkpoint) (s : PlanState) : PhaseExecutionOutcome :=
  match c.conditional with
  | .inl previous =>
    if s.failures.isEmpty then
      .raised (.ofClass .NoPhasesFoundError "No phases found in the test record.")
    else s.act c (s.failed previous)
  | .inr condition => s.act c (condition.check s.store)

end PlanState

/-- A program of the machine, which gets stuck when it is not told what it asks for. -/
abbrev Plan := Act PlanState Unit

namespace Plan

def aborted : Plan Bool := fun s ↦
  match s.answers with
  | .aborted b :: rest => (.ok b, { s with answers := rest })
  | _ => (.error (), s)

def phaseAnswer : Plan PhaseExecutionOutcome := fun s ↦
  match s.answers with
  | .phase o store failures :: rest => (.ok o, { s with answers := rest, store, failures })
  | _ => (.error (), s)

/-- What is in a subtest that has failed is skipped, unless it is in a teardown. -/
def skips (inTeardown : Bool) : Plan Bool := Act.gets fun s ↦ !inTeardown && s.subtestFails

def failSubtest : Plan ExecutorReturn := fun s ↦
  match s.subtest with
  | none => (.error (), s)
  | some (name, _) => (.ok .CONTINUE, { s with subtest := some (name, true) })

def conclude (o : PhaseExecutionOutcome) : Plan ExecutorReturn :=
  if o.isTerminal then pure .TERMINAL
  else if o.isFailSubtest then failSubtest
  else pure .CONTINUE

/-- A phase or a checkpoint whose outcome is `outcome`. -/
def leaf (n : PhaseNode) (skip : PlanState → PlanState) (outcome : Plan PhaseExecutionOutcome)
    (inTeardown : Bool) : Plan ExecutorReturn := do
  if ← skips inTeardown then
    Act.modify skip
    pure .CONTINUE
  else
    let o ← outcome
    Act.modify (PlanState.addEntry (.executed n inTeardown o))
    conclude o

def phase (p : PhaseDescriptor) : Bool → Plan ExecutorReturn :=
  leaf (.phase p) (PlanState.skipPhase p) phaseAnswer

def checkpoint (c : Checkpoint) : Bool → Plan ExecutorReturn :=
  leaf (.checkpoint c) (PlanState.addEntry (.skipped (.checkpoint c))) (Act.gets (·.verdict c))

def subtestOutcome (failed : Bool) : ExecutorReturn → SubtestOutcome
  | .TERMINAL => .STOP
  | .CONTINUE => if failed then .FAIL else .PASS

/-- A subtest in a subtest that has failed has failed. -/
def subtest (name : Option String) (x : Plan ExecutorReturn) : Plan ExecutorReturn := do
  let outer ← Act.gets (·.subtest)
  Act.modify fun s ↦ { s with subtest := some (name, s.subtestFails) }
  let ret ← x
  Act.modify fun s ↦
    { s.addEntry (.subtest name (some (subtestOutcome s.subtestFails ret))) with subtest := outer }
  pure ret

def branch (name : Option String) (c : DiagnosisCondition) (inTeardown : Bool)
    (x : Plan ExecutorReturn) : Plan ExecutorReturn := do
  if ← skips inTeardown then pure .CONTINUE
  else
    let taken ← Act.gets fun s ↦ c.check s.store
    let ret ← if taken then x else pure .CONTINUE
    Act.modify (PlanState.addBranch name c taken)
    pure ret

/-- The teardown is not one when the subtest had failed before the main began. -/
def group (hasSetup : Bool) (setup main : Plan ExecutorReturn) (teardown : Bool → Plan ExecutorReturn) :
    Plan ExecutorReturn := do
  let failedAtEntry ← Act.gets (·.subtestFails)
  let setupRet ← setup
  if setupRet ≠ .CONTINUE then pure setupRet
  else
    let failedNow ← Act.gets (·.subtestFails)
    let mainRet ← main
    let teardownRet ← teardown (!(failedAtEntry || (hasSetup && failedNow)))
    pure (moreCritical mainRet teardownRet)

/-- One node after the other, until one of them ends the test. -/
def inOrder : List (Plan ExecutorReturn) → Plan ExecutorReturn
  | [] => pure .CONTINUE
  | x :: xs => do
    if ← aborted then pure .TERMINAL
    else
      let ret ← x
      if ret ≠ .CONTINUE then pure ret
      else inOrder xs

/-- All nodes, whatever comes of them. -/
def every : List (Plan ExecutorReturn) → ExecutorReturn → Plan ExecutorReturn
  | [], ret => pure ret
  | x :: xs, ret => do
    if ← aborted then pure .TERMINAL
    else
      let r ← x
      every xs (moreCritical ret r)

def sequence (inTeardown : Bool) (xs : List (Plan ExecutorReturn)) : Plan ExecutorReturn :=
  if inTeardown then every xs .CONTINUE else inOrder xs

end Plan

/-! ## The meaning of a tree -/

mutual

def PhaseNode.plan : PhaseNode → Bool → Plan ExecutorReturn
  | .phase p, inTeardown => Plan.phase p inTeardown
  | .checkpoint c, inTeardown => Plan.checkpoint c inTeardown
  | .sequence (.mk .plain _ nodes), inTeardown => Plan.sequence inTeardown (plansOf nodes inTeardown)
  | .sequence (.mk .subtest name nodes), inTeardown =>
      Plan.subtest name (Plan.sequence inTeardown (plansOf nodes inTeardown))
  | .sequence (.mk (.branch c) name nodes), inTeardown =>
      Plan.branch name c inTeardown (Plan.sequence inTeardown (plansOf nodes inTeardown))
  | .group (.mk setup main teardown _), inTeardown =>
      Plan.group setup.isSome (planOfPart setup inTeardown) (planOfPart main inTeardown) (planOfPart teardown)
  | .unhandled, _ => pure .TERMINAL

def plansOf : List PhaseNode → Bool → List (Plan ExecutorReturn)
  | [], _ => []
  | n :: ns, inTeardown => n.plan inTeardown :: plansOf ns inTeardown

/-- A part of a group is executed as a plain sequence. -/
def planOfPart : Option PhaseSequence → Bool → Plan ExecutorReturn
  | none, _ => pure .CONTINUE
  | some (.mk _ _ nodes), inTeardown => Plan.sequence inTeardown (plansOf nodes inTeardown)

end

/-- The plan of the nodes of a sequence, whatever its class. -/
def PhaseSequence.plan (s : PhaseSequence) (inTeardown : Bool) : Plan ExecutorReturn :=
  Plan.sequence inTeardown (plansOf s.nodes inTeardown)

theorem planOfPart_some (s : PhaseSequence) (inTeardown : Bool) :
    planOfPart (some s) inTeardown = s.plan inTeardown := by
  obtain ⟨kind, name, nodes⟩ := s
  rfl

/-- The plan of a sequence, by its class. -/
theorem plan_sequence (s : PhaseSequence) (inTeardown : Bool) :
    (PhaseNode.sequence s).plan inTeardown =
      match s.kind with
      | .plain => s.plan inTeardown
      | .subtest => Plan.subtest s.name (s.plan inTeardown)
      | .branch c => Plan.branch s.name c inTeardown (s.plan inTeardown) := by
  obtain ⟨kind, name, nodes⟩ := s
  cases kind <;> rfl

theorem plansOf_eq_map (ns : List PhaseNode) (inTeardown : Bool) :
    plansOf ns inTeardown = ns.map fun n ↦ n.plan inTeardown := by
  induction ns with
  | nil => rfl
  | cons n ns ih => rw [plansOf, ih, List.map_cons]

end OpenHtf
