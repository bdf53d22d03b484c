import OpenHtf.AutomaticSkips
import OpenHtf.PlanSemantics
import OpenHtf.TreeInvariant
import OpenHtf.Unaborted

/-!
# The test executor carries out the plan

What the executor did in a world is abstracted to a state of the machine: its
events to what the machine says, the phase records to their failures.  When the
executor returns from a node, then the machine that runs the plan of the node
from the abstraction of the world before comes to the abstraction of the world
after, with the same result.
-/

set_option autoImplicit false

namespace OpenHtf

open Act TestExecutor

/-! ## Abstraction -/

/-- What the machine says when the executor notes the event. -/
def Event.entry : Event → Option PlanEntry
  | .ended _ n inTeardown o => some (.executed n inTeardown o)
  | .skipped _ n _ _ => some (.skipped n)
  | .subtestRecorded _ _ _ r => some (.subtest r.name r.outcome)
  | _ => none

/-- The subtest in which a phase record says FAIL. -/
def PhaseRecord.failure (r : PhaseRecord) : Option (Option String) :=
  if r.outcome = some .FAIL then some r.subtestName else none

def BranchRecord.decision (r : BranchRecord) : Option String × DiagnosisCondition × Bool :=
  (r.name, r.diagCondition, r.branchTaken)

namespace World

def planSubtest (w : World) (rec : Option ℕ) : Option (Option String × Bool) :=
  rec.map fun i ↦ ((w.subtestRecords i).name, (w.subtestRecords i).isFail)

/-- The state of the machine in the world, under the subtest `rec`, when it will be told `answers`. -/
def planState (w : World) (rec : Option ℕ) (answers : List PlanAnswer) : PlanState where
  answers
  subtest := w.planSubtest rec
  store := w.run.testState.diagnosesStore
  failures := w.run.testRecord.phases.map PhaseRecord.failure
  entries := w.events.filterMap Event.entry
  branches := w.run.testRecord.branches.map BranchRecord.decision

theorem planState_addEvent (w : World) (e : Event) (rec : Option ℕ) (answers : List PlanAnswer) :
    (w.addEvent e).planState rec answers =
      { w.planState rec answers with entries := (w.planState rec answers).entries ++ e.entry.toList } := by
  cases h : e.entry <;> simp [planState, planSubtest, h]

end World

/-- The machine that runs `x` in the world before comes to the world after, when it is told
`answers`; when nobody aborts, then it is not told so. -/
def Follows {α : Type} (answers : List PlanAnswer) (x : Plan α) (rec : Option ℕ) (w : World) (a : α) (w' : World) :
    Prop :=
  (w.run.sync.NoAbort → .aborted true ∉ answers) ∧
    ∀ rest, x (w.planState rec (answers ++ rest)) = (.ok a, w'.planState rec rest)

structure Played {α : Type} (x : Plan α) (rec : Option ℕ) (w : World) (a : α) (w' : World) : Prop
    extends TreeFrame rec w w' where
  unaborted : Unaborted w.run w'.run
  told : ∃ answers, Follows answers x rec w a w'

/-- Nothing happened that the machine knows of. -/
structure Unplanned (rec : Option ℕ) (w w' : World) : Prop extends TreeFrame rec w w' where
  unaborted : Unaborted w.run w'.run
  state : ∀ answers, w'.planState rec answers = w.planState rec answers

section Played

variable {α β : Type} {rec : Option ℕ} {w w' w₁ w₂ : World} {x : Plan α} {a : α}

theorem Played.bind {f : α → Plan β} {b : β} (h : Played x rec w a w₁) (h' : Played (f a) rec w₁ b w₂) :
    Played (x >>= f) rec w b w₂ := by
  obtain ⟨answers, hno, hx⟩ := h.told
  obtain ⟨answers', hno', hf⟩ := h'.told
  refine { h.toTreeFrame.trans h'.toTreeFrame with
    unaborted := IsTrans.trans _ _ _ h.unaborted h'.unaborted
    told := ⟨answers ++ answers', fun hs ↦ ?_, fun rest ↦ ?_⟩ }
  · rw [List.mem_append, not_or]
    exact ⟨hno hs, hno' (h.unaborted hs)⟩
  · rw [List.append_assoc, bind_apply, hx, andThen, hf]

/-- A step of the machine that asks for nothing. -/
theorem played_of_eq (hf : TreeFrame rec w w') (hs : Unaborted w.run w'.run)
    (h : ∀ answers, x (w.planState rec answers) = (.ok a, w'.planState rec answers)) :
    Played x rec w a w' := { hf with unaborted := hs, told := ⟨[], fun _ ↦ List.not_mem_nil, h⟩ }

theorem played_pure (rec : Option ℕ) (w : World) (a : α) : Played (pure a) rec w a w :=
  played_of_eq (.refl rec w) id fun _ ↦ rfl

theorem played_gets (rec : Option ℕ) (w : World) (f : PlanState → α)
    (h : ∀ answers, f (w.planState rec answers) = a) : Played (Act.gets f) rec w a w :=
  played_of_eq (.refl rec w) id fun answers ↦ by rw [gets_apply, h]

theorem Played.preceded (h : Played x rec w₁ a w') (hw : Unplanned rec w w₁) : Played x rec w a w' := by
  obtain ⟨answers, hno, hx⟩ := h.told
  refine { hw.toTreeFrame.trans h.toTreeFrame with
    unaborted := IsTrans.trans _ _ _ hw.unaborted h.unaborted
    told := ⟨answers, hno ∘ hw.unaborted, fun rest ↦ ?_⟩ }
  rw [← hw.state, hx]

theorem Played.followed (h : Played x rec w a w₁) (hw : Unplanned rec w₁ w') : Played x rec w a w' := by
  obtain ⟨answers, hno, hx⟩ := h.told
  refine { h.toTreeFrame.trans hw.toTreeFrame with
    unaborted := IsTrans.trans _ _ _ h.unaborted hw.unaborted
    told := ⟨answers, hno, fun rest ↦ ?_⟩ }
  rw [hx, hw.state]

theorem Unplanned.trans (h : Unplanned rec w w₁) (h' : Unplanned rec w₁ w₂) : Unplanned rec w w₂ :=
  { h.toTreeFrame.trans h'.toTreeFrame with
    unaborted := IsTrans.trans _ _ _ h.unaborted h'.unaborted
    state := fun answers ↦ (h'.state answers).trans (h.state answers) }

theorem unplanned_addEvent {e : Event} (hctx : ∀ ctx ∈ e.ctx, ctx = w.callstack)
    (hfail : ∀ j, e ≠ .subtestFailed j) (he : e.entry = none) : Unplanned rec w (w.addEvent e) :=
  { treeFrame_addEvent hctx hfail with
    unaborted := id
    state := fun _ ↦ by rw [World.planState_addEvent, he, Option.toList_none, List.append_nil] }

theorem unplanned_setRun {s : RunState} (hs : Unaborted w.run s)
    (hstore : s.testState.diagnosesStore = w.run.testState.diagnosesStore)
    (hphases : s.testRecord.phases = w.run.testRecord.phases)
    (hbranches : s.testRecord.branches = w.run.testRecord.branches) : Unplanned rec w (w.setRun s) :=
  { treeFrame_setRun s w with
    unaborted := hs
    state := fun _ ↦ by simp [World.planState, World.planSubtest, hstore, hphases, hbranches] }

theorem unplanned_afterShared {α : Type} {env : Env} {op : Sync → α × Sync}
    (hop : ∀ s : Sync, s.NoAbort → (op s).2.NoAbort) : Unplanned rec w (w.afterShared env op) :=
  { treeFrame_afterShared w with
    unaborted := fun hs ↦ hop _ (Sync.stable_noAbort.interfere env.schedule hs)
    state := fun _ ↦ rfl }

/-- What happens inside an activity, seen from outside. -/
theorem Played.leave {f : Frame} (h : Played x rec (w.enter f) a w') :
    Played x rec w a (w'.setCallstack w.callstack) :=
  { h.toTreeFrame.leave with unaborted := h.unaborted, told := h.told }

end Played

/-- When the statement returns, it has done what the plan says. -/
def Plays (x : Plan ExecutorReturn) (rec : Option ℕ) (y : Executor ExecutorReturn) : Prop :=
  ∀ w, w.Knows rec → wp y (Played x rec w) (fun _ _ ↦ True) w

/-! ## Leaves -/

section Leaves

variable {rec : Option ℕ} {td : Bool}

theorem planState_subtestFails (w : World) (rec : Option ℕ) (answers : List PlanAnswer) :
    (w.planState rec answers).subtestFails = w.subtestFails rec := by
  cases rec <;> rfl

theorem played_skips (rec : Option ℕ) (w : World) (td : Bool) :
    Played (Plan.skips td) rec w (!td && w.subtestFails rec) w :=
  played_gets rec w _ fun answers ↦ by rw [planState_subtestFails]

theorem played_failSubtest (w : World) (i : ℕ) :
    Played Plan.failSubtest (some i) w .CONTINUE
      ((w.setSubtestOutcome i .FAIL).addEvent (.subtestFailed i)) := by
  refine played_of_eq (treeFrame_subtestFailed w i) id fun answers ↦ ?_
  simp [Plan.failSubtest, World.planState, World.planSubtest, World.setSubtestOutcome, SubtestRecord.isFail,
    Event.entry]

theorem plays_conclude (o : PhaseExecutionOutcome) (unit : String) :
    Plays (Plan.conclude o) rec (conclude o unit rec) := by
  intro w _
  simp only [conclude, Plan.conclude, wp_ite, wp_bind, wp_modify, wp_pure]
  split_ifs with hterminal hlast hfail
  · exact played_pure rec w _
  · refine played_of_eq (.of_eq rfl rfl rfl ?_ (Nat.le_refl _) fun _ _ ↦ rfl) id fun _ ↦ rfl
    exact fun h ↦ absurd h hlast
  · cases rec with
    | none => trivial
    | some i => exact played_failSubtest w i
  · exact played_pure rec w _

theorem plays_executeLeaf {n : PhaseNode} {unit : String} {records : TestRecord → ℕ}
    {skip : Option SubtestRecord → Exec Unit} {run : Option SubtestRecord → Exec PhaseExecutionOutcome}
    {skipState : PlanState → PlanState} {outcome : Plan PhaseExecutionOutcome}
    (hskip : ∀ w : World, wp (skip (rec.map w.subtestRecords))
      (fun _ s ↦ Unaborted w.run s ∧ ∀ ctx first next answers,
        ((w.setRun s).addEvent (.skipped ctx n first next)).planState rec answers =
          skipState (w.planState rec answers))
      (fun _ _ ↦ True) w.run)
    (hrun : ∀ w : World, wp (run (rec.map w.subtestRecords)) (fun o s ↦ Played outcome rec w o (w.setRun s))
      (fun _ _ ↦ True) w.run) :
    Plays (Plan.leaf n skipState outcome td) rec (executeLeaf n unit records skip run rec td) := by
  intro w hw
  simp only [executeLeaf, subtestRecord, autoSkips, noteThread, wp_bind, wp_gets, wp_ite, wp_onRun, wp_modify,
    wp_noteEvent, wp_pure, World.setRun_setRun]
  split
  · rename_i hskips
    set w₀ := w.setRun (w.run.mapSync (Sync.setStartPending false))
    have hpending : Unplanned rec w w₀ := unplanned_setRun (unaborted_noteThread false w.run) rfl rfl rfl
    refine (hskip w₀).mono ?_ fun _ _ _ ↦ trivial
    rintro - s ⟨hunaborted, hs⟩
    refine .bind (played_skips rec w td) ?_
    rw [if_pos hskips]
    refine (played_of_eq ?_ hunaborted fun answers ↦ ?_ : Played _ rec w₀ _ _).preceded hpending
    · exact (treeFrame_setRun s _).trans (treeFrame_addEvent (by simp [Event.ctx, w₀]) (by simp))
    · rw [bind_apply, modify_apply, andThen, pure_apply, ← hs w.callstack]
      rfl
  · rename_i hskips
    set w₀ := w.addEvent (.executing w.callstack n td)
    have hexecuting : Unplanned rec w w₀ := unplanned_addEvent (by simp [Event.ctx]) (by simp) rfl
    refine (hrun w₀).mono ?_ fun _ _ _ ↦ trivial
    intro o s ho
    have hnote : Played (Act.modify (PlanState.addEntry (.executed n td o))) rec (w₀.setRun s) ()
        ((w₀.setRun s).addEvent (.ended w.callstack n td o)) := by
      refine played_of_eq (treeFrame_addEvent (by simp [Event.ctx, w₀]) (by simp)) id fun answers ↦ ?_
      simp [World.planState, World.planSubtest, PlanState.addEntry, Event.entry]
    have hw₀ : ((w₀.setRun s).addEvent (.ended w.callstack n td o)).Knows rec :=
      hnote.knows (ho.knows (hexecuting.knows hw))
    refine (plays_conclude o unit _ hw₀).mono ?_ fun _ _ _ ↦ trivial
    intro r w' hr
    refine .bind (played_skips rec w td) ?_
    rw [if_neg hskips]
    exact (ho.bind (hnote.bind hr)).preceded hexecuting

/-! ### Phases -/

theorem phaseFrame_stopOnFirstFailure (env : Env) (o : PhaseExecutionOutcome) :
    Within PhaseFrame (stopOnFirstFailure env o) := by
  refine .ite (fun _ ↦ .bind .gets fun phases ↦ .bind (phaseFrame_noteStep) fun _ ↦ ?_) fun _ ↦ .pure
  cases phases.getLast? with
  | none => exact .raise
  | some last => exact .pure

theorem PhaseFrame.branches {s s' : RunState} (h : PhaseFrame s s') :
    s'.testRecord.branches = s.testRecord.branches := congrArg (·.testRecord.branches) h.testState

theorem played_phaseAnswer {w : World} {s : RunState} (o : PhaseExecutionOutcome) (h : PhaseFrame w.run s)
    (hs : Unaborted w.run s) : Played Plan.phaseAnswer rec w o (w.setRun s) := by
  refine { treeFrame_setRun s w with
    unaborted := hs
    told := ⟨[.phase o s.testState.diagnosesStore (s.testRecord.phases.map PhaseRecord.failure)],
      fun _ ↦ by simp, fun rest ↦ ?_⟩ }
  simp [Plan.phaseAnswer, World.planState, World.planSubtest, h.branches]

/-- The record that `skip_phase` adds does not say FAIL. -/
theorem skipPhase_failures (env : Env) (p : PhaseDescriptor) (r : Option SubtestRecord) (s : RunState) :
    wp (skipPhase env p r)
      (fun _ s' ↦ s'.testState.diagnosesStore = s.testState.diagnosesStore ∧
        s'.testRecord.branches = s.testRecord.branches ∧
        s'.testRecord.phases.map PhaseRecord.failure = s.testRecord.phases.map PhaseRecord.failure ++ [none])
      (fun _ _ ↦ True) s := by
  simp only [skipPhase, enterPhase, leavePhase, timeMillis, noteStep, wp_bind, wp_shared, wp_ite, wp_raise,
    wp_callUser, wp_modify, wp_catching]
  split
  · trivial
  refine (finalizePhase_skipped env p ?_ ?_ ?_ ?_ ?_).mono ?_ fun _ _ hf ↦ hf.elim
  · rfl
  · rfl
  · rfl
  · intro m hm
    obtain ⟨m', hm', rfl⟩ := List.mem_map.mp hm
    exact p.measurements_unset m' hm'
  · rfl
  · rintro - s' ⟨hstate, hskips⟩
    have hphases : s'.testRecord.phases = s.testRecord.phases := congrArg (·.testRecord.phases) hstate
    refine ⟨congrArg (·.diagnosesStore) hstate, congrArg (·.testRecord.branches) hstate, ?_⟩
    rw [← hphases]
    have hnone : s'.phaseState.phaseRecord.failure = none := by
      rw [PhaseRecord.failure, hskips.outcome, if_neg (by simp)]
    exact (List.map_append).trans (congrArg _ (congrArg (fun x ↦ [x]) hnone))

theorem plays_executePhase (env : Env) (p : PhaseDescriptor) :
    Plays (Plan.phase p td) rec (TestExecutor.executePhase env (phaseExecutor env) p rec td) := by
  refine plays_executeLeaf (fun w ↦ ?_) fun w ↦ ?_
  · refine ((skipPhase_failures env p _ w.run).and ((unaborted_skipPhase p _).wp w.run)).mono ?_
      fun _ _ _ ↦ trivial
    rintro - s ⟨⟨hstore, hbranches, hphases⟩, hs⟩
    refine ⟨hs, fun ctx first next answers ↦ ?_⟩
    simp [World.planState, World.planSubtest, PlanState.skipPhase, hstore, hbranches, hphases, Event.entry]
  · have hrun : Within PhaseFrame (do
        let o ← OpenHtf.executePhase env p (rec.map w.subtestRecords)
        noteThread (Sync.setStartPending false)
        stopOnFirstFailure env o) :=
      .bind (phaseFrame_executePhase env p _) fun o ↦
        .bind (.modify fun _ ↦ ⟨rfl, rfl, .refl _, List.prefix_rfl⟩) fun _ ↦ phaseFrame_stopOnFirstFailure env o
    have hunaborted : Within Unaborted (do
        let o ← OpenHtf.executePhase env p (rec.map w.subtestRecords)
        noteThread (Sync.setStartPending false)
        stopOnFirstFailure env o) :=
      .bind (unaborted_executePhase p _) fun o ↦
        .bind (unaborted_noteThread false) fun _ ↦ unaborted_stopOnFirstFailure o
    refine ((hrun.wp w.run).and (hunaborted.wp w.run)).mono ?_ fun _ _ _ ↦ trivial
    rintro o s ⟨h, hs⟩
    exact played_phaseAnswer o h hs

/-! ### Checkpoints -/

theorem PhaseRecord.isSome_failure (r : PhaseRecord) : r.failure.isSome = (r.outcome == some .FAIL) := by
  by_cases h : r.outcome = some .FAIL <;> simp [failure, h]

theorem PhaseRecord.failure_beq (r : PhaseRecord) (name : Option String) :
    (r.failure == some name) = (r.subtestName == name && r.outcome == some .FAIL) := by
  by_cases h : r.outcome = some .FAIL <;> simp [failure, h]

theorem phasesFailed_eq (previous : PreviousPhases) (w : World) (answers : List PlanAnswer) :
    phasesFailed previous ((rec.map w.subtestRecords).map (·.name)) w.run.testRecord.phases =
      (w.planState rec answers).failed previous := by
  have hany : (w.run.testRecord.phases.any fun r ↦ r.outcome == some .FAIL) =
      (w.run.testRecord.phases.map PhaseRecord.failure).any (·.isSome) := by
    simp only [List.any_map, Function.comp_def, PhaseRecord.isSome_failure]
  cases previous with
  | LAST =>
      simp only [phasesFailed, PlanState.failed, World.planState, List.getLast?_map, Option.any_map,
        PhaseRecord.isSome_failure]
  | ALL => exact hany
  | SUBTEST =>
      cases rec with
      | none => exact hany
      | some i =>
          simp only [phasesFailed, PlanState.failed, World.planState, World.planSubtest, Option.map_some,
            List.any_map, Function.comp_def, PhaseRecord.failure_beq]

theorem wp_getResult {c : Checkpoint} {r : Option SubtestRecord} {Q : PhaseResult → RunState → Prop}
    {E : PyExc → RunState → Prop} :
    wp (c.getResult r) Q E = fun s ↦
      match c.conditional with
      | .inl previous =>
        if s.testRecord.phases.isEmpty then
          E (.ofClass .NoPhasesFoundError "No phases found in the test record.") s
        else Q (if phasesFailed previous (r.map (·.name)) s.testRecord.phases then c.action else .CONTINUE) s
      | .inr condition =>
        Q (if condition.check s.testState.diagnosesStore then c.action else .CONTINUE) s := by
  funext s
  unfold Checkpoint.getResult
  cases c.conditional with
  | inl previous =>
      simp only [wp_bind, wp_gets, wp_ite, wp_raise, wp_pure, id]
  | inr condition => rfl

/-- The checkpoint comes to what the machine says, and what it raised is its outcome. -/
theorem checkResult_verdict (c : Checkpoint) (w : World) {s : RunState}
    (hs : s.testState = w.run.testState) :
    wp (exceptException
        (do
          let r ← c.getResult (rec.map w.subtestRecords)
          if r == .FAIL_SUBTEST && (rec.map w.subtestRecords).isNone then
            Act.raise (.ofClass .InvalidPhaseResultError
              "Checkpoint returned FAIL_SUBTEST, but subtest not running.")
          pure (.result r))
        fun e ↦ pure (.raised e))
      (fun o s' ↦ (∀ answers, (w.planState rec answers).verdict c = o) ∧ s'.testState = w.run.testState ∧
        s'.sync = s.sync)
      (fun _ _ ↦ False) s := by
  have hrecord : s.testRecord = w.run.testRecord := congrArg (·.testRecord) hs
  have hnone (answers : List PlanAnswer) :
      (w.planState rec answers).subtest.isNone = (rec.map w.subtestRecords).isNone := by
    cases rec <;> rfl
  have hempty (answers : List PlanAnswer) :
      (w.planState rec answers).failures.isEmpty = w.run.testRecord.phases.isEmpty := List.isEmpty_map
  have hstore (answers : List PlanAnswer) :
      (w.planState rec answers).store = w.run.testState.diagnosesStore := rfl
  simp only [wp_exceptException, wp_bind, wp_getResult, wp_ite, wp_raise, wp_pure, PyExc.isException_ofClass,
    if_true, hrecord, hs, PlanState.verdict, hempty, PlanState.act, hnone, hstore, ← phasesFailed_eq]
  cases c.conditional with
  | inl previous =>
      dsimp only
      split_ifs <;> simp_all
  | inr condition =>
      dsimp only
      split_ifs <;> simp_all

theorem plays_executeCheckpoint (env : Env) (c : Checkpoint) :
    Plays (Plan.checkpoint c td) rec (TestExecutor.executeCheckpoint (phaseExecutor env) c rec td) := by
  have hadd (w : World) (s : RunState) (hs : s.testState = w.run.testState) (hsync : s.sync = w.run.sync)
      (r : CheckpointRecord) : Unplanned rec w (w.setRun (s.mapTestRecord (·.addCheckpointRecord r))) :=
    unplanned_setRun (unaborted_of_sync hsync) (congrArg (·.diagnosesStore) hs) (congrArg (·.testRecord.phases) hs)
      (congrArg (·.testRecord.branches) hs)
  refine plays_executeLeaf (fun w ↦ ?_) fun w ↦ ?_
  · simp only [phaseExecutor, skipCheckpoint, addCheckpointRecord, timeMillis, noteStep, wp_bind, wp_callUser,
      wp_modify]
    have hmet := hadd w (RunState.addStep (.checkpointMet c.name w.run.moment)
      { w.run with moment := w.run.moment + 1 }) rfl rfl
    refine ⟨(hmet _).unaborted, fun ctx first next answers ↦ ?_⟩
    exact (World.planState_addEvent ..).trans (congrArg (PlanState.addEntry _) ((hmet _).state answers))
  · simp only [phaseExecutor, evaluateCheckpoint, addCheckpointRecord, timeMillis, noteStep, wp_bind,
      wp_callUser, wp_modify, wp_pure]
    refine wp.mono (checkResult_verdict c w rfl) ?_ fun _ _ hf ↦ hf.elim
    rintro o s ⟨ho, hs, hsync⟩
    exact (played_gets rec w _ ho).followed (hadd w s hs hsync _)

end Leaves

/-! ## Collections -/

section Collections

variable {rec : Option ℕ} {td : Bool} {x : Plan ExecutorReturn} {y : Executor ExecutorReturn}

theorem plays_visiting (n : PhaseNode) (h : Plays x rec y) : Plays x rec (visiting n td y) := by
  intro w hw
  simp only [wp_visiting]
  have hvisit : Unplanned rec w (w.addEvent (.visited w.callstack n td)) :=
    unplanned_addEvent (by simp [Event.ctx]) (by simp) rfl
  refine wp.mono (h _ hw) ?_ fun _ _ _ ↦ trivial
  exact fun r w' hr ↦ (hr.leave (w := w.addEvent _)).preceded hvisit

theorem plays_reaching (s : PhaseSequence) (h : Plays x rec y) : Plays x rec (reaching s rec td y) := by
  intro w hw
  simp only [wp_reaching]
  refine wp.mono (h _ hw) ?_ fun _ _ _ ↦ trivial
  intro r w' hr
  refine (hr.preceded ?_).followed ?_
  · exact unplanned_addEvent (by simp [Event.ctx]) (by simp) rfl
  · exact unplanned_addEvent (by simp [Event.ctx]) (by simp) rfl

theorem plays_enteringGroup (env : Env) (h : Plays x rec y) : Plays x rec (enteringGroup env y) := by
  intro w hw
  simp only [wp_enteringGroup]
  refine wp.mono (h _ hw) ?_ fun _ _ _ ↦ trivial
  exact fun r w' hr ↦ hr.preceded (unplanned_afterShared fun _ hs ↦ Sync.stable_noAbort.enterGroup hs)

theorem plays_withTeardownPhasesLock (env : Env) (h : Plays x rec y) :
    Plays x rec (withTeardownPhasesLock env y) := by
  intro w hw
  simp only [wp_withTeardownPhasesLock]
  refine wp.mono (h _ hw) ?_ fun _ _ _ ↦ trivial
  intro r w' hr
  refine (hr.preceded ?_).followed ?_
  · exact unplanned_afterShared fun _ hs ↦ Sync.stable_noAbort.acquire hs
  · exact unplanned_afterShared fun _ hs ↦ Sync.stable_noAbort.release hs

theorem plays_within (f : Frame) (h : Plays x rec y) : Plays x rec (within f y) := by
  intro w hw
  simp only [wp_within]
  refine wp.mono (h _ hw) ?_ fun _ _ _ ↦ trivial
  exact fun r w' hr ↦ hr.leave

theorem plays_executePhaseBranch (s : PhaseSequence) (c : DiagnosisCondition) (h : Plays x rec y) :
    Plays (Plan.branch s.name c td x) rec (executePhaseBranch s c rec td y) := by
  intro w hw
  simp only [wp_executePhaseBranch]
  have hevaluating : Unplanned rec w (w.evaluating s td) := by
    have hrun : Unplanned rec w (w.setRun (RunState.addStep
        (.branchEvaluated s.name w.run.moment w.inBranch) { w.run with moment := w.run.moment + 1 })) :=
      unplanned_setRun id rfl rfl rfl
    exact hrun.trans (unplanned_addEvent (by simp [Event.ctx]) (by simp) rfl)
  have hadd (taken : Bool) (w' : World) :
      Played (Act.modify (PlanState.addBranch s.name c taken)) rec w' () (w'.addBranch s c taken w.run.moment) := by
    refine played_of_eq (treeFrame_setRun _ w') id fun answers ↦ ?_
    have hbranches : ((w'.addBranch s c taken w.run.moment).planState rec answers).branches =
        (w'.planState rec answers).branches ++ [(s.name, c, taken)] := List.map_append
    exact congrArg (fun l ↦ ((.ok () : Except Unit Unit), { w'.planState rec answers with branches := l }))
      hbranches.symm
  have htaken (taken : Bool) (hc : c.check w.run.testState.diagnosesStore = taken) :
      Played (Act.gets fun s ↦ c.check s.store) rec w taken w := played_gets rec w _ fun _ ↦ hc
  split_ifs with hskip hc
  · refine .bind (played_skips rec w td) ?_
    rw [if_pos hskip]
    exact played_pure rec w _
  · refine wp.mono (h _ ?_) ?_ fun _ _ _ ↦ trivial
    · exact hevaluating.knows hw
    intro r w' hr
    refine .bind (played_skips rec w td) ?_
    rw [if_neg hskip]
    refine .bind (htaken true hc) (.bind ?_ (.bind (hadd true _) (played_pure rec _ r)))
    exact (hr.leave (w := w.evaluating s td)).preceded hevaluating
  · refine .bind (played_skips rec w td) ?_
    rw [if_neg hskip]
    refine .bind (htaken false (eq_false_of_ne_true hc)) (.bind ?_ (.bind (hadd false _) (played_pure rec _ _)))
    exact (played_pure rec _ _).preceded hevaluating

theorem plays_executePhaseGroup (g : PhaseGroup) {setupPlan mainPlan : Plan ExecutorReturn}
    {teardownPlan : Bool → Plan ExecutorReturn} {setup main : Executor ExecutorReturn}
    {teardown : Bool → Executor ExecutorReturn} (hs : Plays setupPlan rec setup) (hm : Plays mainPlan rec main)
    (ht : ∀ b, Plays (teardownPlan b) rec (teardown b)) :
    Plays (Plan.group g.setup.isSome setupPlan mainPlan teardownPlan) rec
      (executePhaseGroup g rec td setup main teardown) := by
  intro w hw
  have hfails (w : World) : Played (Act.gets (·.subtestFails)) rec w (w.subtestFails rec) w :=
    played_gets rec w _ (planState_subtestFails w rec)
  simp only [wp_executePhaseGroup]
  refine (hs w hw).mono ?_ fun _ _ _ ↦ trivial
  intro r w₁ h₁
  split_ifs with hr
  · refine .bind (hfails w) (.bind h₁ ?_)
    rw [if_pos hr]
    exact played_pure rec w₁ r
  have hmain : Unplanned rec w₁ (w₁.addEvent (.groupMain w₁.callstack g td (w₁.subtestFails rec))) :=
    unplanned_addEvent (by simp [Event.ctx]) (by simp) rfl
  refine wp.mono (hm _ (hmain.knows (h₁.knows hw))) ?_ fun _ _ _ ↦ trivial
  intro r' w₂ h₂
  have h₂ := h₂.preceded hmain
  have hteardown : Unplanned rec w₂ (w₂.addEvent (.groupTeardown w₂.callstack g (!w.skipsTeardown g rec w₁))) :=
    unplanned_addEvent (by simp [Event.ctx]) (by simp) rfl
  refine wp.mono (ht _ _ (hteardown.knows (h₂.knows (h₁.knows hw)))) ?_ fun _ _ _ ↦ trivial
  intro r'' w₃ h₃
  have hdone : Unplanned rec w₃ (w₃.addEvent (.groupCompleted w₃.callstack g)) :=
    unplanned_addEvent (by simp [Event.ctx]) (by simp) rfl
  refine .bind (hfails w) (.bind h₁ ?_)
  rw [if_neg hr]
  exact .bind (hfails w₁) (.bind h₂ (.bind (h₃.preceded hteardown) ((played_pure rec w₃ _).followed hdone)))

/-- A look at a flag that is not set when nobody aborts. -/
theorem played_aborted {env : Env} {w : World} {op : Sync → Bool × Sync} {b : Bool}
    (hop : ∀ s, (op s).2 = s) (hflag : ∀ s : Sync, s.NoAbort → (op s).1 = false)
    (hb : (op (w.run.sync.interfere env.schedule)).1 = b) : Played Plan.aborted rec w b (w.afterShared env op) := by
  have hinterfere := Sync.stable_noAbort.interfere env.schedule (s := w.run.sync)
  refine { treeFrame_afterShared w with
    unaborted := fun hs ↦ ?_
    told := ⟨[.aborted b], fun hs ↦ ?_, fun _ ↦ rfl⟩ }
  · have hsync : (w.afterShared env op).run.sync = w.run.sync.interfere env.schedule := hop _
    rw [hsync]
    exact hinterfere hs
  · have hfalse : b = false := hb.symm.trans (hflag _ (hinterfere hs))
    simp [hfalse]

theorem plays_abortableSequence {env : Env} {exec : PhaseExecutor} {ns : List PhaseNode}
    (h : ∀ n ∈ ns, ∀ rec td, Plays (n.plan td) rec (executeNode env exec n rec td)) :
    Plays (Plan.inOrder (plansOf ns false)) rec (executeAbortableSequence env exec ns rec) := by
  induction ns with
  | nil => exact fun w _ ↦ played_pure rec w _
  | cons n ns ih =>
      intro w hw
      have ih := ih fun m hm ↦ h m (List.mem_cons_of_mem _ hm)
      have hasked (b : Bool) (hb : (Sync.abortIsSet (w.run.sync.interfere env.schedule)).1 = b) :
          Played Plan.aborted rec w b (w.afterShared env Sync.abortIsSet) :=
        played_aborted (fun _ ↦ rfl) (fun _ hs ↦ hs.abort) hb
      have hknown := (hasked _ rfl).knows hw
      simp only [executeAbortableSequence, noteThread, wp_bind, wp_onRun, wp_shared, wp_ite, wp_pure, wp_modify]
      split
      · rename_i ha
        exact .bind (hasked true ha) (played_pure rec _ _)
      rename_i ha
      have hasked := hasked false (eq_false_of_ne_true ha)
      have hpending : Unplanned rec (w.afterShared env Sync.abortIsSet)
          (w.afterShared env fun s ↦ ((), s.setStartPending n.isPhaseOrGroup)) :=
        unplanned_setRun (fun hs ↦ Sync.stable_noAbort.setStartPending _ hs) rfl rfl rfl
      refine wp.mono (h n List.mem_cons_self rec false _ (hpending.knows hknown)) ?_ fun _ _ _ ↦ trivial
      intro r w₁ h₁
      have h₁ := h₁.preceded hpending
      split
      · rename_i hr
        refine .bind hasked ?_
        rw [if_neg (by simp)]
        refine .bind h₁ ?_
        rw [if_pos hr]
        exact played_pure rec w₁ r
      · rename_i hr
        refine (ih w₁ (h₁.knows hknown)).mono ?_ fun _ _ _ ↦ trivial
        intro r' w₂ h₂
        refine .bind hasked ?_
        rw [if_neg (by simp)]
        refine .bind h₁ ?_
        rw [if_neg hr]
        exact h₂

theorem plays_teardownSequence {env : Env} {exec : PhaseExecutor} {ns : List PhaseNode}
    (h : ∀ n ∈ ns, ∀ rec td, Plays (n.plan td) rec (executeNode env exec n rec td)) (ret : ExecutorReturn) :
    Plays (Plan.every (plansOf ns true) ret) rec (executeTeardownSequence env exec ns rec ret) := by
  induction ns generalizing ret with
  | nil => exact fun w _ ↦ played_pure rec w _
  | cons n ns ih =>
      intro w hw
      have ih := ih fun m hm ↦ h m (List.mem_cons_of_mem _ hm)
      have hasked (b : Bool) (hb : (Sync.fullAbortIsSet (w.run.sync.interfere env.schedule)).1 = b) :
          Played Plan.aborted rec w b (w.afterShared env Sync.fullAbortIsSet) :=
        played_aborted (fun _ ↦ rfl) (fun _ hs ↦ hs.fullAbort) hb
      have hknown := (hasked _ rfl).knows hw
      simp only [executeTeardownSequence, wp_bind, wp_onRun, wp_shared, wp_ite, wp_pure]
      split
      · rename_i ha
        exact .bind (hasked true ha) (played_pure rec _ _)
      rename_i ha
      have hasked := hasked false (eq_false_of_ne_true ha)
      refine wp.mono (h n List.mem_cons_self rec true _ hknown) ?_ fun _ _ _ ↦ trivial
      intro r w₁ h₁
      refine (ih (moreCritical ret r) w₁ (h₁.knows hknown)).mono ?_ fun _ _ _ ↦ trivial
      intro r' w₂ h₂
      refine .bind hasked ?_
      rw [if_neg (by simp)]
      exact .bind h₁ h₂

/-- The machine enters a subtest when the executor has made the record of it. -/
theorem planState_beginSubtest (s : PhaseSequence) (w : World) (rec : Option ℕ) (c : List Frame)
    (answers : List PlanAnswer) :
    ((w.beginSubtest s (w.subtestFails rec)).setCallstack c).planState (some w.subtestsMade) answers =
      { w.planState rec answers with subtest := some (s.name, (w.planState rec answers).subtestFails) } := by
  rw [planState_subtestFails]
  cases h : w.subtestFails rec <;>
    simp [World.planState, World.planSubtest, World.beginSubtest, SubtestRecord.isFail, RunState.testRecord]

/-- The record of a running subtest: its name is the one of the sequence, and it says PASS or FAIL. -/
theorem subtestRecord_running {s : PhaseSequence} {w w' : World} {b : Bool} {c : List Frame}
    (h : TreeFrame (some w.subtestsMade) ((w.beginSubtest s b).setCallstack c) w') :
    (w'.subtestRecords w.subtestsMade).name = s.name ∧
      (w'.subtestRecords w.subtestsMade).outcome =
        some (if (w'.subtestRecords w.subtestsMade).isFail then .FAIL else .PASS) := by
  have hself : (w.beginSubtest s b).subtestRecords w.subtestsMade =
      { name := s.name, startTimeMillis := w.run.moment, outcome := some (if b then .FAIL else .PASS) } :=
    Function.update_self ..
  by_cases hm : .subtestFailed w.subtestsMade ∈ ((w.beginSubtest s b).setCallstack c).emitted w'
  · rw [(h.failed _ (Nat.lt_succ_self _) hm).2]
    refine ⟨?_, rfl⟩
    exact congrArg SubtestRecord.name hself
  · rw [h.kept _ (Nat.lt_succ_self _) hm, World.setCallstack_subtestRecords, hself]
    cases b <;> exact ⟨rfl, rfl⟩

/-- The records of the subtests around a running one stay. -/
theorem planSubtest_endSubtest {s : PhaseSequence} {w w' : World} {b : Bool} {c : List Frame} {r : ExecutorReturn}
    (hw : w.Knows rec) (h : TreeFrame (some w.subtestsMade) ((w.beginSubtest s b).setCallstack c) w') :
    (w'.endSubtest w.subtestsMade b r).planSubtest rec = w.planSubtest rec := by
  cases rec with
  | none => rfl
  | some i =>
      have hi : i < w.subtestsMade := hw i rfl
      have hrecord : (w'.endSubtest w.subtestsMade b r).subtestRecords i = w.subtestRecords i := by
        by_cases hm : .subtestFailed i ∈ ((w.beginSubtest s b).setCallstack c).emitted w'
        · have hself := (h.failed i (Nat.lt_succ_of_lt hi) hm).1
          exact absurd (Option.some.inj hself) (Nat.ne_of_gt hi)
        · calc (w'.endSubtest w.subtestsMade b r).subtestRecords i
            _ = w'.subtestRecords i := Function.update_of_ne (Nat.ne_of_lt hi) _ _
            _ = (w.beginSubtest s b).subtestRecords i := h.kept i (Nat.lt_succ_of_lt hi) hm
            _ = w.subtestRecords i := Function.update_of_ne (Nat.ne_of_lt hi) _ _
      rw [World.planSubtest, World.planSubtest, Option.map_some, Option.map_some, hrecord]

/-- The machine leaves a subtest when the executor has added the record of it. -/
theorem planState_endSubtest {name : Option String} {w : World} {i : ℕ} {b : Bool} {r : ExecutorReturn}
    (hname : (w.subtestRecords i).name = name)
    (houtcome : (w.subtestRecords i).outcome = some (if (w.subtestRecords i).isFail then .FAIL else .PASS))
    (rec : Option ℕ) (answers : List PlanAnswer) :
    (w.endSubtest i b r).planState rec answers =
      { (w.planState (some i) answers).addEntry
          (.subtest name (some (Plan.subtestOutcome (w.planState (some i) answers).subtestFails r))) with
        subtest := (w.endSubtest i b r).planSubtest rec } := by
  have hclosed : (w.closedRecord i r).outcome =
      some (Plan.subtestOutcome (w.planState (some i) answers).subtestFails r) := by
    rw [planState_subtestFails]
    cases r with
    | TERMINAL => rfl
    | CONTINUE => exact houtcome
  have hentry : (Event.subtestRecorded i b r (w.closedRecord i r)).entry =
      some (.subtest name (some (Plan.subtestOutcome (w.planState (some i) answers).subtestFails r))) := by
    rw [Event.entry, hclosed]
    exact congrArg (fun name ↦ some (PlanEntry.subtest name _)) hname
  rw [World.endSubtest, World.planState_addEvent, hentry]
  rfl

theorem plays_executeSubtest (s : PhaseSequence) {sequence : Option ℕ → Executor ExecutorReturn}
    (h : ∀ rec, Plays x rec (sequence rec)) : Plays (Plan.subtest s.name x) rec (executeSubtest s rec sequence) := by
  intro w hw
  rw [wp_executeSubtest hw]
  refine wp.mono (h _ _ knows_beginSubtest) ?_ fun _ _ _ ↦ trivial
  intro r w' hr
  have hframe : TreeFrame rec w (w'.setCallstack w.callstack) := TreeFrame.ofSubtest hr.toTreeFrame
  obtain ⟨hname, houtcome⟩ := subtestRecord_running hr.toTreeFrame
  obtain ⟨answers, hno, hx⟩ := hr.told
  refine { hframe.endSubtest (Nat.le_refl _) with
    unaborted := hr.unaborted
    told := ⟨answers, hno, fun rest ↦ ?_⟩ }
  have hbegin : { w.planState rec (answers ++ rest) with
      subtest := some (s.name, (w.planState rec (answers ++ rest)).subtestFails) } =
        ((w.beginSubtest s (w.subtestFails rec)).setCallstack
          (.subtest w.subtestsMade :: w.callstack)).planState (some w.subtestsMade) (answers ++ rest) :=
    (planState_beginSubtest ..).symm
  have houter : (w.planState rec (answers ++ rest)).subtest =
      ((w'.setCallstack w.callstack).endSubtest w.subtestsMade (w.subtestFails rec) r).planSubtest rec :=
    (planSubtest_endSubtest hw hr.toTreeFrame).symm
  rw [Plan.subtest, bind_apply, gets_apply, andThen, bind_apply, modify_apply, andThen, hbegin, bind_apply, hx,
    andThen, bind_apply, modify_apply, andThen, pure_apply, houter]
  exact congrArg (Prod.mk _) (planState_endSubtest hname houtcome rec rest).symm

end Collections

/-! ## The tree -/

section Tree

variable (env : Env)

/-- The executor carries out the plans of nodes and sequences. -/
theorem plays_tree :
    (∀ n rec td, Plays (n.plan td) rec (executeNode env (phaseExecutor env) n rec td)) ∧
      ∀ s : PhaseSequence, ∀ rec td, Plays (s.plan td) rec (executeSequence env (phaseExecutor env) s rec td) := by
  apply PhaseNode.tree_induction
  case phase => exact fun p rec td ↦ plays_visiting _ (plays_executePhase env p)
  case checkpoint => exact fun c rec td ↦ plays_visiting _ (plays_executeCheckpoint env c)
  case unhandled =>
    refine fun rec td ↦ plays_visiting _ fun w _ ↦ ?_
    simp only [noteStep, wp_bind, wp_onRun, wp_modify, wp_pure]
    exact (played_pure rec w _).followed (unplanned_setRun id rfl rfl rfl)
  case sequence =>
    intro s hs rec td
    rw [plan_sequence]
    refine plays_visiting _ (plays_reaching s ?_)
    unfold executeSequenceNode
    cases s.kind with
    | plain => exact hs rec td
    | subtest => exact plays_executeSubtest s fun rec ↦ hs rec td
    | branch c => exact plays_executePhaseBranch s c (hs rec td)
  case group =>
    rintro ⟨setup, main, teardown, name⟩ hs hm ht rec td
    have hpart {o : Option PhaseSequence} (td : Bool)
        (ho : ∀ s ∈ o, ∀ rec td, Plays (s.plan td) rec (executeSequence env (phaseExecutor env) s rec td)) :
        Plays (planOfPart o td) rec (executePart env (phaseExecutor env) o rec td) := by
      cases o with
      | none => exact fun w _ ↦ played_pure rec w _
      | some s =>
          rw [planOfPart_some]
          exact plays_reaching s (ho s rfl rec td)
    exact plays_visiting _ (plays_enteringGroup env
      (plays_executePhaseGroup _ (hpart td hs) (hpart td hm) fun b ↦ hpart b ht))
  case nodes =>
    intro kind name ns hns rec td
    refine plays_within _ ?_
    cases td with
    | false => exact plays_abortableSequence hns
    | true => exact plays_withTeardownPhasesLock env (plays_teardownSequence hns .CONTINUE)

variable {env} {n : PhaseNode} {rec : Option ℕ} {td : Bool} {w w' : World} {r : ExecutorReturn}

/-- A subtest with a phase that fails it, a phase that is skipped, and a teardown. -/
def planExample : PhaseNode :=
  .group (.mk none
    (some (.mk .plain none
      [.sequence (.mk .subtest (some "sub")
        [.phase { id := 1, name := "a", func := fun _ ↦ { ends := .returned (some .FAIL_SUBTEST) } },
          .phase { id := 2, name := "b" }])]))
    (some (.mk .plain none [.phase { id := 3, name := "c" }])) none)

end Tree

end OpenHtf
