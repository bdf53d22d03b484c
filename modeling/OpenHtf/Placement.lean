import OpenHtf.PhaseFrame
import OpenHtf.TeardownContext

/-!
# Branches and subtests wherever they are placed

What a branch or a subtest means is decided in `_execute_node`.  The sequences of
a group are executed without it, so a `BranchSequence` or a `Subtest` that is one
of them is executed like a plain sequence.  In a tree without such groups the
children of a branch are met only when its condition held, and the records of
branches and subtests are those of the branches and subtests that were reached.
-/

set_option autoImplicit false

namespace OpenHtf

open Act TestExecutor

/-! ## Groups -/

/-- The sequences of a group. -/
def PhaseGroup.parts (g : PhaseGroup) : List PhaseSequence :=
  g.setup.toList ++ g.main.toList ++ g.teardown.toList

/-- If the node is a group, none of its sequences is itself a `BranchSequence` or
a `Subtest`. -/
def PhaseNode.hasPlainParts : PhaseNode → Bool
  | .group g => g.parts.all fun s ↦ s.kind = .plain
  | _ => true

theorem kind_of_isPart {s : PhaseSequence} (h : IsPart (·.hasPlainParts = true) s) : s.kind = .plain := by
  obtain ⟨g, hg, hs⟩ := h
  have hmem : s ∈ g.parts := by simpa [PhaseGroup.parts, or_assoc] using hs
  simpa using List.all_eq_true.mp hg s hmem

/-! ## What is said of a sequence object -/

/-- What the record of a branch tells of it, if one is due: outside a failed
subtest or in teardown. -/
def PhaseSequence.branchDue (s : PhaseSequence) (inTeardown subtestFailed : Bool) :
    Option (Option String × DiagnosisCondition) :=
  match s.kind with
  | .branch c => if inTeardown || !subtestFailed then some (s.name, c) else none
  | _ => none

/-- What the record of a subtest tells of it. -/
def PhaseSequence.subtestDue (s : PhaseSequence) : Option (Option String) :=
  if s.kind = .subtest then some s.name else none

namespace Event

/-- The sequence object that is reached. -/
def reachedScope : Event → Option (PhaseSequence × Bool × Bool)
  | .reached s inTeardown failed => some (s, inTeardown, failed)
  | _ => none

/-- The sequence object that is left, with or without an exception. -/
def leftScope : Event → Option (PhaseSequence × Bool × Bool)
  | .completed s inTeardown failed | .abandoned s inTeardown failed => some (s, inTeardown, failed)
  | _ => none

def branchCompleted : Event → Option (Option String × DiagnosisCondition)
  | .completed s inTeardown failed => s.branchDue inTeardown failed
  | _ => none

def subtestCompleted : Event → Option (Option String)
  | .completed s _ _ => s.subtestDue
  | _ => none

def subtestReached : Event → Option (Option String)
  | .reached s _ _ => s.subtestDue
  | _ => none

/-- An exception escapes from a subtest. -/
def losesSubtest : Event → Bool
  | .abandoned s _ _ => s.kind = .subtest
  | _ => false

end Event

/-- If the innermost activity is the passage through the nodes of a branch, then it
is the one through a branch that was taken, and the store met its condition. -/
def ConditionMet (ctx : List Frame) : Prop :=
  ∀ s rest c, ctx = .sequence s :: rest → s.kind = .branch c →
    ∃ store rest', rest = .branch c store :: rest' ∧ c.check store = true

/-- From `w` to `w'` branches and subtests keep their meaning. -/
structure MeaningKept (w w' : World) : Prop where
  /-- A child of a branch is met only when the condition of the branch held. -/
  children : ∀ ctx n td, .visited ctx n td ∈ w.emitted w' → ConditionMet ctx
  /-- Whatever is reached is left, with or without an exception. -/
  scopes : ((w.emitted w').filterMap Event.reachedScope).Perm ((w.emitted w').filterMap Event.leftScope)
  /-- One record for each branch that is left without one and is not skipped. -/
  branches : ∃ l, w'.run.testRecord.branches = w.run.testRecord.branches ++ l ∧
    l.map (fun b ↦ (b.name, b.diagCondition)) = (w.emitted w').filterMap Event.branchCompleted
  /-- One record for each subtest that is reached, in the order in which they are left. -/
  subtests : ∃ l, w'.run.testRecord.subtests = w.run.testRecord.subtests ++ l ∧
    l.map (·.name) = (w.emitted w').filterMap Event.subtestCompleted ∧
    (l.map (·.name)).Perm ((w.emitted w').filterMap Event.subtestReached)
  /-- What is met inside a teardown is in teardown, unless a group there meets a failed subtest. -/
  teardown : w'.NoFailedGroup → ∀ ctx n td, .visited ctx n td ∈ w.emitted w' →
    ctx.any Frame.isTeardown = true → td = true

theorem MeaningKept.branches_of_nil {w w' : World} (h : MeaningKept w w')
    (hw : w.run.testRecord.branches = []) :
    w'.run.testRecord.branches.map (fun b ↦ (b.name, b.diagCondition)) =
      (w.emitted w').filterMap Event.branchCompleted := by
  obtain ⟨l, hl, hdue⟩ := h.branches
  rw [hl, hw, List.nil_append, hdue]

/-! ## Scopes -/

/-- What is reached from `w` to `w'` is left. -/
structure ScopesLeft (w w' : World) : Prop where
  events : w.events <+: w'.events
  left : ((w.emitted w').filterMap Event.reachedScope).Perm ((w.emitted w').filterMap Event.leftScope)

theorem scopesLeft_of_events_eq {w w' : World} (h : w'.events = w.events) : ScopesLeft w w' := by
  have hnone : w.emitted w' = [] := World.emitted_of_eq (by rw [h, List.append_nil])
  exact ⟨h ▸ List.prefix_rfl, by simp [hnone]⟩

instance : Std.Refl ScopesLeft where
  refl _ := scopesLeft_of_events_eq rfl

instance : IsTrans World ScopesLeft where
  trans _ _ _ h h' := by
    refine ⟨h.events.trans h'.events, ?_⟩
    rw [World.emitted_trans h.events h'.events, List.filterMap_append, List.filterMap_append]
    exact h.left.append h'.left

theorem scopesLeft_noteEvent {e : List Frame → Event} (hreached : ∀ c, (e c).reachedScope = none)
    (hleft : ∀ c, (e c).leftScope = none) : Within ScopesLeft (noteEvent e) := by
  refine .modify fun w ↦ ⟨List.prefix_append _ _, ?_⟩
  rw [World.emitted_addEvent]
  simp [hreached, hleft]

theorem scopesLeft_onRun {α : Type} {x : Exec α} : Within ScopesLeft (onRun x) :=
  fun _ ↦ scopesLeft_of_events_eq rfl

theorem scopesLeft_within {f : Frame} {x : Executor ExecutorReturn} (h : Within ScopesLeft x) :
    Within ScopesLeft (within f x) := by
  intro w
  have hx := h (w.setCallstack (f :: w.callstack))
  exact ⟨hx.events, hx.left⟩

theorem scopesLeft_reaching (s : PhaseSequence) (rec : Option ℕ) (td : Bool)
    {x : Executor ExecutorReturn} (h : Within ScopesLeft x) :
    Within ScopesLeft (reaching s rec td x) := by
  intro w
  have hclose {e e' : Event} {w' : World} (hreached : e.reachedScope = e'.leftScope)
      (hleft : e.leftScope = none) (hreached' : e'.reachedScope = none)
      (hx : ScopesLeft (w.addEvent e) w') : ScopesLeft w (w'.addEvent e') := by
    refine ⟨((List.prefix_append _ _).trans hx.events).trans (List.prefix_append _ _), ?_⟩
    rw [World.emitted_between e' hx.events]
    cases ho : e'.leftScope with
    | none => simpa [List.filterMap_cons, hreached, hleft, hreached', ho] using hx.left
    | some a =>
        have hperm := (hx.left.cons a).trans (List.perm_append_singleton a _).symm
        simpa [List.filterMap_cons, hreached, hleft, hreached', ho] using hperm
  refine (wp_same (P := ScopesLeft w)).mp ?_
  simp only [wp_reaching]
  refine (h.wp _).mono ?_ ?_
  · exact fun _ _ hx ↦ hclose rfl rfl rfl hx
  · exact fun _ _ hx ↦ hclose rfl rfl rfl hx

section Tree

variable {env : Env} {exec : PhaseExecutor}

theorem scopesLeft_executeLeaf (n : PhaseNode) (unit : String) (records : TestRecord → ℕ)
    (skip : Option SubtestRecord → Exec Unit) (run : Option SubtestRecord → Exec PhaseExecutionOutcome)
    (rec : Option ℕ) (td : Bool) : Within ScopesLeft (executeLeaf n unit records skip run rec td) := by
  have hconclude (o : PhaseExecutionOutcome) : Within ScopesLeft (conclude o unit rec) := by
    refine .ite (fun _ ↦ .bind (.modify fun w ↦ scopesLeft_of_events_eq ?_) fun _ ↦ .pure) fun _ ↦
      .ite (fun _ ↦ ?_) fun _ ↦ .pure
    · split <;> rfl
    · cases rec with
      | none => exact .raise
      | some i =>
          exact .bind (.modify fun _ ↦ scopesLeft_of_events_eq rfl) fun _ ↦
            .bind (scopesLeft_noteEvent (fun _ ↦ rfl) fun _ ↦ rfl) fun _ ↦ .pure
  exact .bind .gets fun _ ↦ .bind .gets fun _ ↦ .ite
    (fun _ ↦ .bind scopesLeft_onRun fun _ ↦ .bind .gets fun _ ↦ .bind scopesLeft_onRun fun _ ↦
      .bind .gets fun _ ↦ .bind (scopesLeft_noteEvent (fun _ ↦ rfl) fun _ ↦ rfl) fun _ ↦ .pure)
    fun _ ↦ .bind (scopesLeft_noteEvent (fun _ ↦ rfl) fun _ ↦ rfl) fun _ ↦ .bind scopesLeft_onRun fun _ ↦
      .bind (scopesLeft_noteEvent (fun _ ↦ rfl) fun _ ↦ rfl) fun _ ↦ hconclude _

theorem scopesLeft_executeSubtest (s : PhaseSequence) (outer : Option ℕ)
    {sequence : Option ℕ → Executor ExecutorReturn} (hs : ∀ rec, Within ScopesLeft (sequence rec)) :
    Within ScopesLeft (executeSubtest s outer sequence) := by
  have hset {f : World → World} (hf : ∀ w, (f w).events = w.events) :
      Within ScopesLeft (Act.modify f : Executor Unit) := .modify fun w ↦ scopesLeft_of_events_eq (hf w)
  have henter : Within ScopesLeft (enterSubtest s outer) :=
    .bind scopesLeft_onRun fun _ ↦ .bind .gets fun _ ↦ .bind (hset fun _ ↦ rfl) fun _ ↦ .bind .gets fun _ ↦
      .ite (fun _ ↦ .bind (hset fun _ ↦ rfl) fun _ ↦ .pure) fun _ ↦ .pure
  have hleave (i : ℕ) (outerFailed : Bool) (ret : ExecutorReturn) :
      Within ScopesLeft (leaveSubtest i outerFailed ret) := by
    have hend : Within ScopesLeft (do
        let endTimeMillis ← onRun timeMillis
        Act.modify fun w ↦
          w.setSubtestRecord i { w.subtestRecords i with endTimeMillis := some endTimeMillis }
        let r ← Act.gets (·.subtestRecords i)
        onRun (Act.modify (RunState.mapTestRecord (·.addSubtestRecord r)))
        noteEvent fun _ ↦ .subtestRecorded i outerFailed ret r : Executor Unit) :=
      .bind scopesLeft_onRun fun _ ↦ .bind (hset fun _ ↦ rfl) fun _ ↦ .bind .gets fun _ ↦
        .bind scopesLeft_onRun fun _ ↦ scopesLeft_noteEvent (fun _ ↦ rfl) fun _ ↦ rfl
    exact .bind .gets fun _ ↦ .bind scopesLeft_onRun fun _ ↦
      .ite (fun _ ↦ .bind (hset fun _ ↦ rfl) fun _ ↦ hend) fun _ ↦ hend
  exact .bind henter fun _ ↦ .bind (scopesLeft_within (hs _)) fun _ ↦ .bind (hleave _ _ _) fun _ ↦ .pure

theorem scopesLeft_executePhaseBranch (s : PhaseSequence) (c : DiagnosisCondition) (rec : Option ℕ)
    (td : Bool) {x : Executor ExecutorReturn} (hx : Within ScopesLeft x) :
    Within ScopesLeft (executePhaseBranch s c rec td x) := by
  have hlost : Within ScopesLeft (Act.catching x fun e ↦ do
      onRun (noteStep .branchLost)
      Act.raise e) := .catching hx fun _ ↦ .bind scopesLeft_onRun fun _ ↦ .raise
  refine .bind .gets fun _ ↦ .ite (fun _ ↦ .pure) fun _ ↦ .bind scopesLeft_onRun fun _ ↦
    .bind .gets fun _ ↦ .bind scopesLeft_onRun fun _ ↦ .bind .gets fun _ ↦
    .bind (scopesLeft_noteEvent (fun _ ↦ rfl) fun _ ↦ rfl) fun _ ↦
    .ite (fun _ ↦ .bind (scopesLeft_within hlost) fun _ ↦ .bind scopesLeft_onRun fun _ ↦ .pure)
      fun _ ↦ .bind .pure fun _ ↦ .bind scopesLeft_onRun fun _ ↦ .pure

theorem scopesLeft_executePhaseGroup (g : PhaseGroup) (rec : Option ℕ) (td : Bool)
    {setup main : Executor ExecutorReturn} {teardown : Bool → Executor ExecutorReturn}
    (hs : Within ScopesLeft setup) (hm : Within ScopesLeft main)
    (ht : ∀ b, Within ScopesLeft (teardown b)) :
    Within ScopesLeft (executePhaseGroup g rec td setup main teardown) :=
  .bind .gets fun _ ↦ .bind hs fun _ ↦ .ite (fun _ ↦ .pure) fun _ ↦ .bind .gets fun _ ↦
    .bind (scopesLeft_noteEvent (fun _ ↦ rfl) fun _ ↦ rfl) fun _ ↦ .bind hm fun _ ↦
    .bind (scopesLeft_noteEvent (fun _ ↦ rfl) fun _ ↦ rfl) fun _ ↦ .bind (ht _) fun _ ↦
    .bind (scopesLeft_noteEvent (fun _ ↦ rfl) fun _ ↦ rfl) fun _ ↦ .pure

theorem scopesLeft_sequences {ns : List PhaseNode}
    (hns : ∀ n ∈ ns, ∀ rec td, Within ScopesLeft (executeNode env exec n rec td)) :
    (∀ rec, Within ScopesLeft (executeAbortableSequence env exec ns rec)) ∧
      ∀ rec ret, Within ScopesLeft (executeTeardownSequence env exec ns rec ret) := by
  induction ns with
  | nil => exact ⟨fun _ ↦ .pure, fun _ _ ↦ .pure⟩
  | cons n ns ih =>
      have hn := hns n List.mem_cons_self
      obtain ⟨iha, iht⟩ := ih fun m hm ↦ hns m (List.mem_cons_of_mem _ hm)
      refine ⟨fun rec ↦ ?_, fun rec ret ↦ ?_⟩
      · exact .bind scopesLeft_onRun fun _ ↦ .ite (fun _ ↦ .pure) fun _ ↦ .bind scopesLeft_onRun fun _ ↦
          .bind (hn _ _) fun _ ↦ .ite (fun _ ↦ .pure) fun _ ↦ iha rec
      · exact .bind scopesLeft_onRun fun _ ↦ .ite (fun _ ↦ .pure) fun _ ↦ .bind (hn _ _) fun _ ↦ iht rec _

/-- Whatever the execution of a node reaches, it leaves. -/
theorem scopesLeft_tree :
    (∀ n rec td, Within ScopesLeft (executeNode env exec n rec td)) ∧
      ∀ s rec td, Within ScopesLeft (executeSequence env exec s rec td) := by
  have hvisiting (n : PhaseNode) (td : Bool) {x : Executor ExecutorReturn} (hx : Within ScopesLeft x) :
      Within ScopesLeft (visiting n td x) :=
    .bind (scopesLeft_noteEvent (fun _ ↦ rfl) fun _ ↦ rfl) fun _ ↦ scopesLeft_within hx
  apply PhaseNode.tree_induction
  case phase => exact fun p rec td ↦ hvisiting _ td (scopesLeft_executeLeaf _ _ _ _ _ rec td)
  case checkpoint => exact fun c rec td ↦ hvisiting _ td (scopesLeft_executeLeaf _ _ _ _ _ rec td)
  case unhandled => exact fun rec td ↦ hvisiting _ td (.bind scopesLeft_onRun fun _ ↦ .pure)
  case sequence =>
    intro s hs rec td
    refine hvisiting _ td (scopesLeft_reaching s rec td ?_)
    unfold executeSequenceNode
    cases s.kind with
    | plain => exact hs rec td
    | subtest => exact scopesLeft_executeSubtest s rec fun rec ↦ hs rec td
    | branch c => exact scopesLeft_executePhaseBranch s c rec td (hs rec td)
  case group =>
    rintro ⟨setup, main, teardown, name⟩ hs hm ht rec td
    have hpart {o : Option PhaseSequence} (td : Bool)
        (ho : ∀ s ∈ o, ∀ rec td, Within ScopesLeft (executeSequence env exec s rec td)) :
        Within ScopesLeft (executePart env exec o rec td) := by
      cases o with
      | none => exact .pure
      | some s => exact scopesLeft_reaching s rec td (ho s rfl rec td)
    exact hvisiting _ td (.bind scopesLeft_onRun fun _ ↦
      scopesLeft_executePhaseGroup _ rec td (hpart td hs) (hpart td hm) fun b ↦ hpart b ht)
  case nodes =>
    intro kind name ns hns rec td
    obtain ⟨ha, ht⟩ := scopesLeft_sequences hns
    exact scopesLeft_within (.ite
      (fun _ ↦ .bind scopesLeft_onRun fun _ ↦ .finally' (ht rec _) scopesLeft_onRun) fun _ ↦ ha rec)

end Tree

/-! ## Records -/

/-- The branch and subtest records are the same. -/
def SameScopeRecords (s s' : RunState) : Prop :=
  s'.testRecord.branches = s.testRecord.branches ∧ s'.testRecord.subtests = s.testRecord.subtests

theorem PhaseFrame.sameScopeRecords {s s' : RunState} (h : PhaseFrame s s') : SameScopeRecords s s' := by
  have hbranches := congrArg (·.testRecord.branches) h.testState
  have hsubtests := congrArg (·.testRecord.subtests) h.testState
  exact ⟨hbranches, hsubtests⟩

instance : Std.Refl SameScopeRecords where
  refl _ := ⟨rfl, rfl⟩

instance : IsTrans RunState SameScopeRecords where
  trans _ _ _ h h' := ⟨h'.1.trans h.1, h'.2.trans h.2⟩

/-- Phases and checkpoints have nothing to do with the records of branches and subtests. -/
theorem runKept_sameScopeRecords (env : Env) : RunKept env (phaseExecutor env) SameScopeRecords where
  executePhase p r := (phaseFrame_executePhase env p r).weaken fun _ _ h ↦ h.sameScopeRecords
  skipPhase p r := (phaseFrame_skipPhase env p r).weaken fun _ _ h ↦ h.sameScopeRecords
  evaluateCheckpoint c r := within_evaluateCheckpoint (fun _ _ ↦ ⟨rfl, rfl⟩) (fun _ _ _ ↦ ⟨rfl, rfl⟩)
    (fun _ _ ↦ ⟨rfl, rfl⟩) c r
  skipCheckpoint c r := within_skipCheckpoint (fun _ _ ↦ ⟨rfl, rfl⟩) (fun _ _ _ ↦ ⟨rfl, rfl⟩)
    (fun _ _ ↦ ⟨rfl, rfl⟩) c r
  abortIsSet _ := ⟨rfl, rfl⟩
  fullAbortIsSet _ := ⟨rfl, rfl⟩
  acquire _ := ⟨rfl, rfl⟩
  release _ := ⟨rfl, rfl⟩
  enterGroup _ := ⟨rfl, rfl⟩
  pending _ _ := ⟨rfl, rfl⟩
  callUser _ _ := ⟨rfl, rfl⟩
  noteStep _ _ := ⟨rfl, rfl⟩

/-! ## Records that match events -/

/-- From `w₀` to `w` one record is added for each event for which one is `due`, in
order, and `key` of it is what is due. -/
structure RecordsMatch {β κ : Type} (records : TestRecord → List β) (key : β → κ) (due : Event → Option κ)
    (w₀ w : World) : Prop where
  events : w₀.events <+: w.events
  added : ∃ l, records w.run.testRecord = records w₀.run.testRecord ++ l ∧
    l.map key = (w₀.emitted w).filterMap due

namespace RecordsMatch

variable {β κ : Type} {records : TestRecord → List β} {key : β → κ} {due : Event → Option κ}
  {w₀ w w' : World}

theorem refl (w : World) : RecordsMatch records key due w w := ⟨List.prefix_rfl, [], by simp⟩

theorem add (h : RecordsMatch records key due w₀ w) {l : List Event} (hevents : w'.events = w.events ++ l)
    {r : List β} (hr : records w'.run.testRecord = records w.run.testRecord ++ r)
    (hdue : r.map key = l.filterMap due) : RecordsMatch records key due w₀ w' := by
  have hp : w.events <+: w'.events := hevents ▸ List.prefix_append _ _
  obtain ⟨r₀, hr₀, hdue₀⟩ := h.added
  refine ⟨h.events.trans hp, r₀ ++ r, ?_, ?_⟩
  · rw [hr, hr₀, List.append_assoc]
  · rw [World.emitted_trans h.events hp, World.emitted_of_eq hevents, List.map_append,
      List.filterMap_append, hdue₀, hdue]

/-- Events without records. -/
theorem quiet (h : RecordsMatch records key due w₀ w) {l : List Event} (hevents : w'.events = w.events ++ l)
    (hrecords : records w'.run.testRecord = records w.run.testRecord) (hl : ∀ e ∈ l, due e = none) :
    RecordsMatch records key due w₀ w' := by
  refine h.add (r := []) hevents (by simpa using hrecords) ?_
  rw [List.filterMap_eq_nil_iff.mpr hl, List.map_nil]

theorem addEvent (h : RecordsMatch records key due w₀ w) {e : Event} (he : due e = none) :
    RecordsMatch records key due w₀ (w.addEvent e) :=
  h.quiet (l := [e]) rfl rfl (by simpa using he)

end RecordsMatch

/-- The branches that are completed have their records. -/
abbrev BranchesRecorded : World → World → Prop :=
  RecordsMatch (·.branches) (fun b ↦ (b.name, b.diagCondition)) Event.branchCompleted

/-- The subtests that are completed have their records. -/
abbrev SubtestsRecorded : World → World → Prop :=
  RecordsMatch (·.subtests) (·.name) Event.subtestCompleted

section Records

variable {valid : PhaseNode → Prop} {s : PhaseSequence} {td failed : Bool}

theorem branchesRecorded_invariant (env : Env) (w₀ : World)
    (hparts : ∀ s, IsPart valid s → ∀ c, s.kind ≠ .branch c) :
    TreeInvariant env (phaseExecutor env) valid SameScopeRecords (BranchesRecorded w₀)
      fun _ _ _ ↦ True where
  refl _ := ⟨rfl, rfl⟩
  kept := runKept_sameScopeRecords env
  same hevents _ _ hrun hi := hi.quiet (l := []) (by simpa using hevents) hrun.1 (by simp)
  frame _ _ _ := trivial
  event {rec td w e} _ _ he hi := by
    refine hi.addEvent ?_
    cases he with
    | completed s failed h =>
        change s.branchDue td failed = none
        rw [PhaseSequence.branchDue]
        split
        · rename_i c hk
          rcases h with hplain | hpart | ⟨-, rfl, rfl⟩
          · simp [hplain] at hk
          · exact absurd hk (hparts s hpart c)
          · rfl
        · rfl
    | _ => rfl
  fail _ _ hi := hi.quiet (l := [.subtestFailed _]) rfl rfl (by simp [Event.branchCompleted])
  node _ := trivial
  sequence _ _ := trivial
  teardown _ _ _ _ := trivial
  branch _ _ := trivial
  branched {rec td w s c taken millis failed} _ _ hk hdue hi := by
    refine hi.add (l := [.completed s td failed]) (r := [⟨s.name, c, taken, millis⟩]) rfl rfl ?_
    have hdue : (td || !failed) = true := by rcases hdue with rfl | rfl <;> simp
    simp [Event.branchCompleted, PhaseSequence.branchDue, hk, hdue]
  begin _ _ hi := ⟨hi.quiet (l := []) (List.append_nil _).symm rfl (by simp), trivial⟩
  done {rec td w w' s ret} _ _ _ hk hf hi := by
    refine hi.quiet (l := [.subtestRecorded w.subtestsMade (w.subtestFails rec) ret
      (w'.closedRecord w.subtestsMade ret), .completed s td (w.subtestFails rec)]) ?_ rfl ?_
    · exact List.append_assoc ..
    · simp [Event.branchCompleted, PhaseSequence.branchDue, hk]

/-- The record of a subtest keeps the name of the subtest. -/
theorem name_subtestRecord {s : PhaseSequence} {b : Bool} {f : Frame} {w w' : World}
    (hf : TreeFrame (some w.subtestsMade) ((w.beginSubtest s b).enter f) w') :
    (w'.subtestRecords w.subtestsMade).name = s.name := by
  have hmade : w.subtestsMade < w.subtestsMade + 1 := Nat.lt_succ_self _
  by_cases hm : .subtestFailed w.subtestsMade ∈ ((w.beginSubtest s b).enter f).emitted w'
  · rw [(hf.failed _ hmade hm).2]
    simp [World.enter, World.beginSubtest]
  · rw [hf.kept _ hmade hm]
    simp [World.enter, World.beginSubtest]

theorem subtestsRecorded_invariant (env : Env) (w₀ : World)
    (hparts : ∀ s, IsPart valid s → s.kind ≠ .subtest) :
    TreeInvariant env (phaseExecutor env) valid SameScopeRecords (SubtestsRecorded w₀)
      fun _ _ _ ↦ True where
  refl _ := ⟨rfl, rfl⟩
  kept := runKept_sameScopeRecords env
  same hevents _ _ hrun hi := hi.quiet (l := []) (by simpa using hevents) hrun.2 (by simp)
  frame _ _ _ := trivial
  event {rec td w e} _ _ he hi := by
    refine hi.addEvent ?_
    cases he with
    | completed s failed h =>
        refine if_neg ?_
        rcases h with hplain | hpart | ⟨hk, -⟩
        · simp [hplain]
        · exact hparts s hpart
        · exact hk
    | _ => rfl
  fail _ _ hi := hi.quiet (l := [.subtestFailed _]) rfl rfl (by simp [Event.subtestCompleted])
  node _ := trivial
  sequence _ _ := trivial
  teardown _ _ _ _ := trivial
  branch _ _ := trivial
  branched {rec td w s c taken millis failed} _ _ hk _ hi := by
    refine hi.quiet (l := [.completed s td failed]) rfl rfl ?_
    simp [Event.subtestCompleted, PhaseSequence.subtestDue, hk]
  begin _ _ hi := ⟨hi.quiet (l := []) (List.append_nil _).symm rfl (by simp), trivial⟩
  done {rec td w w' s ret} _ _ _ hk hf hi := by
    refine hi.add (l := [.subtestRecorded w.subtestsMade (w.subtestFails rec) ret
      (w'.closedRecord w.subtestsMade ret), .completed s td (w.subtestFails rec)])
      (r := [w'.closedRecord w.subtestsMade ret]) ?_ rfl ?_
    · exact List.append_assoc ..
    · have hdue : (Event.completed s td (w.subtestFails rec)).subtestCompleted = some s.name := if_pos hk
      rw [List.filterMap_cons_none rfl, List.filterMap_cons_some hdue]
      simp [World.closedRecord, name_subtestRecord hf]

end Records

/-! ## The children of branches -/

/-- What is met from `w₀` to `w` is met where it should be. -/
structure ChildrenMet (w₀ w : World) : Prop where
  events : w₀.events <+: w.events
  children : ∀ ctx n td, .visited ctx n td ∈ w₀.emitted w → ConditionMet ctx
  teardown : w.NoFailedGroup → ∀ ctx n td, .visited ctx n td ∈ w₀.emitted w →
    ctx.any Frame.isTeardown = true → td = true

theorem ChildrenMet.add {w₀ w w' : World} (h : ChildrenMet w₀ w) {l : List Event}
    (hevents : w'.events = w.events ++ l)
    (hvisit : ∀ ctx n td, .visited ctx n td ∈ l →
      ConditionMet ctx ∧ (w.NoFailedGroup → ctx.any Frame.isTeardown = true → td = true)) :
    ChildrenMet w₀ w' := by
  have hp : w.events <+: w'.events := hevents ▸ List.prefix_append _ _
  have hem : w₀.emitted w' = w₀.emitted w ++ l := by
    rw [World.emitted_trans h.events hp, World.emitted_of_eq hevents]
  refine ⟨h.events.trans hp, fun ctx n td hm ↦ ?_, fun hno ctx n td hm hctx ↦ ?_⟩
  · rcases List.mem_append.mp (hem ▸ hm) with hm | hm
    · exact h.children ctx n td hm
    · exact (hvisit ctx n td hm).1
  · have hno := hno.before hp
    rcases List.mem_append.mp (hem ▸ hm) with hm | hm
    · exact h.teardown hno ctx n td hm hctx
    · exact (hvisit ctx n td hm).2 hno hctx

theorem conditionMet_cons {f : Frame} (hf : ∀ s, f ≠ .sequence s) (ctx : List Frame) :
    ConditionMet (f :: ctx) := by
  intro s rest c heq
  exact absurd (List.cons.inj heq).1 (hf s)

/-- Where a node or a sequence is executed. -/
structure MetAt (td : Bool) (w : World) : Prop where
  met : ConditionMet w.callstack
  teardown : w.NoFailedGroup → w.callstack.any Frame.isTeardown = true → td = true

theorem childrenMet_invariant (env : Env) (w₀ : World) :
    TreeInvariant env (phaseExecutor env) (·.hasPlainParts = true) (fun _ _ ↦ True) (ChildrenMet w₀)
      fun _ td w ↦ MetAt td w where
  refl _ := trivial
  kept := runKept_any env _
  same hevents _ _ _ hi := hi.add (l := []) (by simpa using hevents) (by simp)
  frame _ hf hat := by
    refine ⟨hf.callstack ▸ hat.met, fun hno hctx ↦ ?_⟩
    exact hat.teardown (hno.before hf.events) (hf.callstack ▸ hctx)
  event {rec td w e} _ hat he hi := by
    refine hi.add (l := [e]) rfl fun ctx n b hm ↦ ?_
    obtain rfl := List.mem_singleton.mp hm
    cases he with
    | visited n hv => exact ⟨hat.met, hat.teardown⟩
  fail _ _ hi := hi.add (l := [.subtestFailed _]) rfl (by simp)
  node {rec td w} hat := by
    refine ⟨conditionMet_cons (by simp) _, fun hno hctx ↦ ?_⟩
    rcases Bool.or_eq_true_iff.mp hctx with htd | hctx
    · exact htd
    · exact hat.teardown hno hctx
  sequence {rec td w s} hat hs := by
    refine ⟨?_, hat.teardown⟩
    rintro s' rest c' heq hk
    obtain ⟨hs', rfl⟩ := List.cons.inj heq
    obtain rfl : s = s' := Frame.sequence.inj hs'
    rcases hs with hplain | hpart | ⟨hsub, -⟩ | ⟨c, store, rest', hbranch, hstack, hmet⟩
    · simp [hplain] at hk
    · simp [kind_of_isPart hpart] at hk
    · simp [hsub] at hk
    · obtain rfl : c = c' := SequenceKind.branch.inj (hbranch.symm.trans hk)
      exact ⟨store, rest', hstack, hmet⟩
  teardown {rec td w g failed skip} hg hat hmem hskip := by
    refine ⟨hat.met, fun hno hctx ↦ ?_⟩
    have hgroup := hno _ hmem
    rw [Event.failedGroupInTeardown, hg, hat.teardown hno hctx] at hgroup
    rw [hskip hgroup]
    rfl
  branch _ hat := ⟨conditionMet_cons (by simp) _, hat.teardown⟩
  branched {rec td w s c taken millis failed} _ _ _ _ hi :=
    hi.add (l := [.completed s td failed]) rfl (by simp)
  begin _ hat hi := ⟨hi.add (l := []) (List.append_nil _).symm (by simp),
    conditionMet_cons (by simp) _, hat.teardown⟩
  done {rec td w w' s ret} _ _ _ _ _ hi := by
    refine hi.add (l := [.subtestRecorded w.subtestsMade (w.subtestFails rec) ret
      (w'.closedRecord w.subtestsMade ret), .completed s td (w.subtestFails rec)]) ?_ (by simp)
    exact List.append_assoc ..

/-! ## Every run -/

theorem filterMap_subtestReached (l : List Event) :
    l.filterMap Event.subtestReached =
      (l.filterMap Event.reachedScope).filterMap fun scope ↦ scope.1.subtestDue := by
  rw [List.filterMap_filterMap]
  refine List.filterMap_congr fun e _ ↦ ?_
  cases e <;> rfl

theorem filterMap_subtestCompleted {l : List Event} (h : ∀ e ∈ l, e.losesSubtest = false) :
    l.filterMap Event.subtestCompleted =
      (l.filterMap Event.leftScope).filterMap fun scope ↦ scope.1.subtestDue := by
  rw [List.filterMap_filterMap]
  refine List.filterMap_congr fun e he ↦ ?_
  cases e with
  | abandoned s td failed =>
      have hk : s.kind ≠ .subtest := by simpa [Event.losesSubtest] using h _ he
      exact (if_neg hk).symm
  | _ => rfl

/-- In every run of a tree in which no group has a branch or a subtest itself as
one of its sequences, branches and subtests keep their meaning, if no exception
escapes from a subtest. -/
theorem meaning_kept (env : Env) (s : PhaseSequence) (hs : ∀ n ∈ s.allNodes, n.hasPlainParts = true)
    (w : World) (hstack : w.callstack = [])
    (h : ∀ e ∈ w.emitted (executeNode env (phaseExecutor env) (.sequence s) none false w).2,
      e.losesSubtest = false) :
    MeaningKept w (executeNode env (phaseExecutor env) (.sequence s) none false w).2 := by
  have hknows : w.Knows none := by simp [World.Knows]
  have hat : MetAt false w := by
    refine ⟨?_, ?_⟩
    · intro s' rest c heq
      simp [hstack] at heq
    · simp [hstack]
  have hvalid : ∀ m, m = .sequence s ∨ m ∈ (PhaseNode.sequence s).nodesBelow → m.hasPlainParts = true := by
    rintro m (rfl | hm)
    · rfl
    · exact hs m hm
  have hchildren := wp_same.mp ((childrenMet_invariant env w).executeNode hvalid hknows hat
    ⟨List.prefix_rfl, by simp, by simp⟩)
  have hbranches : BranchesRecorded w (executeNode env (phaseExecutor env) (.sequence s) none false w).2 :=
    wp_same.mp ((branchesRecorded_invariant env w fun s hpart c ↦ by
      simp [kind_of_isPart hpart]).executeNode hvalid hknows trivial (.refl w))
  have hsubtests : SubtestsRecorded w (executeNode env (phaseExecutor env) (.sequence s) none false w).2 :=
    wp_same.mp ((subtestsRecorded_invariant env w fun s hpart ↦ by
      simp [kind_of_isPart hpart]).executeNode hvalid hknows trivial (.refl w))
  have hscopes : ScopesLeft w (executeNode env (phaseExecutor env) (.sequence s) none false w).2 :=
    scopesLeft_tree.1 _ none false w
  obtain ⟨l, hl, hnames⟩ := hsubtests.added
  refine ⟨hchildren.children, hscopes.left, hbranches.added, ⟨l, hl, hnames, ?_⟩, hchildren.teardown⟩
  rw [hnames, filterMap_subtestCompleted h, filterMap_subtestReached]
  exact (hscopes.left.filterMap _).symm

/-- A subtest with a branch in it, in the main of a group. -/
theorem meaning_kept_group :
    let s : PhaseSequence := .mk .plain none [.group (.new .none (.nodes [.sequence (.mk .subtest (some "power")
      [.sequence (.mk (.branch ⟨.ALL, []⟩) (some "retry") [.phase { id := 0, name := "measure" }])])]) .none)]
    MeaningKept {} (executeNode {} (phaseExecutor {}) (.sequence s) none false {}).2 :=
  meaning_kept {} _ (by decide +kernel) {} rfl (by decide +kernel)

/-- The phase of a branch that is the main of a group itself is executed although
the condition of the branch does not hold, and there is no record of the branch. -/
theorem not_meaningKept_branchMain :
    let s : PhaseSequence := .mk .plain none [.group (.new .none
      (.sequence (.mk (.branch ⟨.ANY, []⟩) (some "retry") [.phase { id := 0, name := "measure" }])) .none)]
    let w := (executeNode {} (phaseExecutor {}) (.sequence s) none false {}).2
    w.run.testRecord.phases.map (·.outcome) = [some .PASS] ∧ ¬MeaningKept {} w := by
  refine ⟨by decide +kernel, fun h ↦ ?_⟩
  have hdue := h.branches_of_nil rfl
  revert hdue
  decide +kernel

end OpenHtf
