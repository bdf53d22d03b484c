import OpenHtf.TestRecord

/-!
# Phases and the trees they are arranged in

`PhaseDescriptor` and the node classes of `phase_collections`,
`phase_branches` and `phase_group`.  `BranchSequence` and `Subtest` are
subclasses of `PhaseSequence`, and wherever the source asks for "a sequence"
it gets any of the three: here they are one type with a `SequenceKind`.
-/

set_option autoImplicit false

namespace OpenHtf

/-! ## What user code answers -/

/-- How the thread of a phase comes to its end: the phase function returned
`None` or a `PhaseResult`, it returned something else, it raised, or it was
still running at its deadline. -/
inductive ThreadEnd where
  | returned (r : Option PhaseResult)
  | returnedOther
  | raised (e : PyExc)
  | hangs

/-- One call of a phase function: what it does to the measurements of the phase
before its thread ends and what it attaches, each under a name of its own, how the
thread ends if nobody kills it, and how it ends if `PhaseExecutor.stop` kills it. -/
structure PhaseCall where
  measure : List Measurement → List Measurement := id
  attachments : List (String × Attachment) := []
  ends : ThreadEnd := .returned none
  endsKilled : ThreadEnd :=
    .raised ⟨.ThreadTerminationError, [.SystemExit, .BaseException], ""⟩
  attachments_nodup : (attachments.map Prod.fst).Nodup := by first | exact List.nodup_nil | simp

/-- What the iterable that a diagnoser returned gives next: an element, or an
exception. -/
inductive DiagItem where
  | diagnosis (d : Diagnosis)
  | other (typeName : String)
  | raises (e : PyExc)

/-- What `diagnoser.run` came to.  `nothing` is `None` or an empty list, and
`invalid` is a string or something that cannot be iterated over. -/
inductive DiagnoserReturn where
  | raised (e : PyExc)
  | nothing
  | single (d : Diagnosis)
  | invalid
  | iterable (items : List DiagItem)

structure Diagnoser where
  name : String
  resultType : ℕ
  alwaysFail : Bool := false
  run : ℕ → DiagnoserReturn

/-- What calling a plug class came to: an exception, or an instance that left
its `logger` alone or not. -/
inductive PlugInit where
  | raised (e : PyExc)
  | made (setsLogger : Bool)

/-- A plug class; `id` is the class object, `name` is `get_plug_name`. -/
structure PlugType where
  id : ℕ
  name : String
  isBasePlug : Bool := true
  overridesLogger : Bool := false
  init : ℕ → PlugInit := fun _ ↦ .made false

/-- `PhasePlug.cls`: a plug class or a placeholder for one. -/
inductive PlugCls where
  | plug (t : PlugType)
  | placeholder (baseClass : ℕ)

structure PhasePlug where
  name : String
  cls : PlugCls
  updateKwargs : Bool := true

theorem unset_of_mem_nil : ∀ m ∈ ([] : List Measurement), m.outcome = .UNSET := by simp

/-- A phase; `id` is Python's `id` of the object.  The outcome of a measurement
is a field set during runtime, so in a descriptor it is not set yet. -/
structure PhaseDescriptor where
  id : ℕ
  name : String
  options : PhaseOptions := {}
  plugs : List PhasePlug := []
  measurements : List Measurement := []
  diagnosers : List Diagnoser := []
  func : ℕ → PhaseCall := fun _ ↦ {}
  measurements_unset : ∀ m ∈ measurements, m.outcome = .UNSET := by
    first | exact unset_of_mem_nil | simp

/-- `PhaseFailureCheckpoint` and `DiagnosisCheckpoint`, by what they check.
`action` is `STOP` or `FAIL_SUBTEST`, as the validator of the field enforces. -/
structure Checkpoint where
  name : String
  action : PhaseResult := .STOP
  conditional : PreviousPhases ⊕ DiagnosisCondition
  action_valid : action = .STOP ∨ action = .FAIL_SUBTEST := by decide

/-! ## Trees -/

/-- The class of a phase sequence; `plain` is `PhaseSequence` itself. -/
inductive SequenceKind where
  | plain
  | subtest
  | branch (diagCondition : DiagnosisCondition)
  deriving DecidableEq

mutual

/-- A node of the tree; `unhandled` is one of a class that is none of the
framework's own. -/
inductive PhaseNode where
  | phase (p : PhaseDescriptor)
  | checkpoint (c : Checkpoint)
  | sequence (s : PhaseSequence)
  | group (g : PhaseGroup)
  | unhandled

inductive PhaseSequence where
  | mk (kind : SequenceKind) (name : Option String) (nodes : List PhaseNode)

inductive PhaseGroup where
  | mk (setup main teardown : Option PhaseSequence) (name : Option String)

end

/-- The nodes that are begun without a further look at `_abort`. -/
def PhaseNode.isPhaseOrGroup : PhaseNode → Bool
  | .phase _ | .group _ => true
  | _ => false

namespace PhaseSequence

def kind : PhaseSequence → SequenceKind
  | mk kind _ _ => kind

def name : PhaseSequence → Option String
  | mk _ name _ => name

def nodes : PhaseSequence → List PhaseNode
  | mk _ _ nodes => nodes

end PhaseSequence

namespace PhaseGroup

def setup : PhaseGroup → Option PhaseSequence
  | mk setup _ _ _ => setup

def main : PhaseGroup → Option PhaseSequence
  | mk _ main _ _ => main

def teardown : PhaseGroup → Option PhaseSequence
  | mk _ _ teardown _ => teardown

end PhaseGroup

/-- What may be passed to `PhaseGroup` for one of its sequences: nothing, an
object that is a `PhaseSequence` already, or nodes to wrap in one. -/
inductive SequenceInitializer where
  | none
  | sequence (s : PhaseSequence)
  | nodes (ns : List PhaseNode)

/-- `phase_group._initialize_group_sequence`; an empty list is falsy. -/
def initializeGroupSequence : SequenceInitializer → Option PhaseSequence
  | .none => Option.none
  | .sequence s => some s
  | .nodes [] => Option.none
  | .nodes ns => some (.mk .plain Option.none ns)

def PhaseGroup.new (setup main teardown : SequenceInitializer)
    (name : Option String := Option.none) : PhaseGroup :=
  .mk (initializeGroupSequence setup) (initializeGroupSequence main)
    (initializeGroupSequence teardown) name

mutual

/-- All nodes of a sequence, at any depth: what `filter_by_type` selects from. -/
def PhaseSequence.allNodes : PhaseSequence → List PhaseNode
  | .mk _ _ nodes => allNodesOf nodes

def allNodesOf : List PhaseNode → List PhaseNode
  | [] => []
  | n :: ns => n :: (n.nodesBelow ++ allNodesOf ns)

def PhaseNode.nodesBelow : PhaseNode → List PhaseNode
  | .sequence s => s.allNodes
  | .group (.mk setup main teardown _) =>
      allNodesOfPart setup ++ allNodesOfPart main ++ allNodesOfPart teardown
  | .phase _ => []
  | .checkpoint _ => []
  | .unhandled => []

def allNodesOfPart : Option PhaseSequence → List PhaseNode
  | none => []
  | some s => s.allNodes

end

def PhaseSequence.allPhases (s : PhaseSequence) : List PhaseDescriptor :=
  s.allNodes.filterMap fun
    | .phase p => some p
    | _ => none

theorem mem_allNodesOf {ns : List PhaseNode} {m : PhaseNode} :
    m ∈ allNodesOf ns ↔ ∃ n ∈ ns, m = n ∨ m ∈ n.nodesBelow := by
  induction ns with
  | nil => simp [allNodesOf]
  | cons n ns ih => simp [allNodesOf, ih, or_assoc]

/-! ## Induction over trees -/

section Induction

variable {P : PhaseNode → Prop} {S : PhaseSequence → Prop}

/-- Induction over a tree, with one case for each kind of node: a property of
nodes and one of sequences, each following from the other below. -/
theorem PhaseNode.tree_induction
    (phase : ∀ p, P (.phase p)) (checkpoint : ∀ c, P (.checkpoint c))
    (unhandled : P .unhandled) (sequence : ∀ s, S s → P (.sequence s))
    (group : ∀ g : PhaseGroup, (∀ s ∈ g.setup, S s) → (∀ s ∈ g.main, S s) →
      (∀ s ∈ g.teardown, S s) → P (.group g))
    (nodes : ∀ kind name ns, (∀ n ∈ ns, P n) → S (.mk kind name ns)) :
    (∀ n, P n) ∧ ∀ s, S s := by
  have hnode : ∀ n, P n := fun n ↦ @PhaseNode.rec P S (fun g ↦ P (.group g))
    (fun ns ↦ ∀ n ∈ ns, P n) (fun o ↦ ∀ s ∈ o, S s) phase checkpoint sequence (fun _ h ↦ h) unhandled nodes
    (fun setup main teardown name hs hm ht ↦ group (.mk setup main teardown name) hs hm ht)
    (by simp) (fun n ns hn hns ↦ by simpa using ⟨hn, hns⟩) (by simp)
    (fun s hs ↦ by simpa using hs) n
  exact ⟨hnode, fun s ↦ by
    obtain ⟨kind, name, ns⟩ := s
    exact nodes kind name ns fun n _ ↦ hnode n⟩

end Induction

end OpenHtf
