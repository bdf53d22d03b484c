import OpenHtf.PhaseRules
import OpenHtf.TestExecutor

/-!
# What a whole run keeps

The rules of `PhaseRules` continued to the test executor: the execution of a
tree and the thread of a test keep a relation between worlds as soon as the
statements that they are made of keep it.
-/

set_option autoImplicit false

namespace OpenHtf

open Act TestExecutor

/-- The statements that the phase executor consists of keep `R`. -/
structure ExecKept (env : Env) (R : RunState → RunState → Prop) : Prop extends RoundsKept env R where
  skipPhase : ∀ p rec, Within R (skipPhase env p rec)
  evaluateCheckpoint : ∀ c rec, Within R (evaluateCheckpoint c rec)
  skipCheckpoint : ∀ c rec, Within R (skipCheckpoint c rec)

/-- The statements that the executors of the nodes consist of keep `R`, and those
of the phase executor keep `R₀`. -/
structure TreeKept (env : Env) (R₀ : RunState → RunState → Prop) (R : World → World → Prop) :
    Prop where
  exec : ExecKept env R₀
  lift : ∀ {w : World} {s}, R₀ w.run s → R w (w.setRun s)
  world : ∀ {w w' : World}, w'.run = w.run → w'.callstack = w.callstack →
    w'.testStateCreated = w.testStateCreated → R w w'
  within : ∀ {f : Frame} {x : Executor ExecutorReturn}, f.isBranch = false → Within R x →
    Within R (within f x)
  branch : ∀ {s c rec td} {x : Executor ExecutorReturn}, Within R x →
    Within R (executePhaseBranch s c rec td x)
  leaveSubtest : ∀ i outerFailed ret, Within R (leaveSubtest i outerFailed ret)

namespace TreeKept

variable {env : Env} {R₀ : RunState → RunState → Prop} {R : World → World → Prop}
  (h : TreeKept env R₀ R)

include h

theorem onRun {α : Type} {x : Exec α} (hx : Within R₀ x) : Within R (onRun x) :=
  fun w ↦ h.lift (hx w.run)

theorem noteEvent (e : List Frame → Event) : Within R (noteEvent e) := fun _ ↦ h.world rfl rfl rfl

variable [Std.Refl R₀] [IsTrans RunState R₀] [Std.Refl R] [IsTrans World R]

section Leaves

omit [Std.Refl R₀] [IsTrans RunState R₀]

theorem conclude (o : PhaseExecutionOutcome) (unit : String) (rec : Option ℕ) :
    Within R (conclude o unit rec) := by
  refine .ite (fun _ ↦ .bind (.modify fun w ↦ h.world ?_ ?_ ?_) fun _ ↦ .pure) fun _ ↦
    .ite (fun _ ↦ ?_) fun _ ↦ .pure
  · split <;> rfl
  · split <;> rfl
  · split <;> rfl
  · cases rec with
    | none => exact .raise
    | some i =>
        exact .bind (.modify fun w ↦ h.world rfl rfl rfl) fun _ ↦ .bind (h.noteEvent _) fun _ ↦ .pure

theorem executeLeaf (n : PhaseNode) (unit : String) (records : TestRecord → ℕ)
    {skip : Option SubtestRecord → Exec Unit}
    {run : Option SubtestRecord → Exec PhaseExecutionOutcome} (rec : Option ℕ) (td : Bool)
    (hskip : ∀ r, Within R₀ (skip r)) (hrun : ∀ r, Within R₀ (run r)) :
    Within R (executeLeaf n unit records skip run rec td) :=
  .bind .gets fun _ ↦ .bind .gets fun _ ↦ .ite
    (fun _ ↦ .bind (h.onRun (h.exec.noteThread _)) fun _ ↦ .bind .gets fun _ ↦
      .bind (h.onRun (hskip _)) fun _ ↦ .bind .gets fun _ ↦ .bind (h.noteEvent _) fun _ ↦ .pure)
    fun _ ↦ .bind (h.noteEvent _) fun _ ↦ .bind (h.onRun (hrun _)) fun _ ↦
      .bind (h.noteEvent _) fun _ ↦ h.conclude _ _ _

omit [Std.Refl R] in
theorem visiting (n : PhaseNode) (td : Bool) {x : Executor ExecutorReturn} (hx : Within R x) :
    Within R (visiting n td x) :=
  .bind (h.noteEvent _) fun _ ↦ h.within rfl hx

theorem reaching (s : PhaseSequence) (rec : Option ℕ) (td : Bool) {x : Executor ExecutorReturn}
    (hx : Within R x) : Within R (reaching s rec td x) :=
  .bind .gets fun _ ↦ .bind (h.noteEvent _) fun _ ↦
    .bind (.catching hx fun _ ↦ .bind (h.noteEvent _) fun _ ↦ .raise) fun _ ↦
    .bind (h.noteEvent _) fun _ ↦ .pure

theorem executeSubtest (s : PhaseSequence) (outer : Option ℕ)
    {sequence : Option ℕ → Executor ExecutorReturn} (hs : ∀ rec, Within R (sequence rec)) :
    Within R (executeSubtest s outer sequence) := by
  have henter : Within R (enterSubtest s outer) :=
    .bind (h.onRun (h.exec.callUser _)) fun _ ↦ .bind .gets fun _ ↦
      .bind (.modify fun _ ↦ h.world rfl rfl rfl) fun _ ↦ .bind .gets fun _ ↦
      .ite (fun _ ↦ .bind (.modify fun _ ↦ h.world rfl rfl rfl) fun _ ↦ .pure) fun _ ↦ .pure
  exact .bind henter fun _ ↦ .bind (h.within rfl (hs _)) fun _ ↦
    .bind (h.leaveSubtest _ _ _) fun _ ↦ .pure

theorem executePhaseGroup (g : PhaseGroup) (rec : Option ℕ) (td : Bool)
    {setup main : Executor ExecutorReturn} {teardown : Bool → Executor ExecutorReturn}
    (hs : Within R setup) (hm : Within R main) (ht : ∀ b, Within R (teardown b)) :
    Within R (executePhaseGroup g rec td setup main teardown) :=
  .bind .gets fun _ ↦ .bind hs fun _ ↦ .ite (fun _ ↦ .pure) fun _ ↦ .bind .gets fun _ ↦
    .bind (h.noteEvent _) fun _ ↦ .bind hm fun _ ↦ .bind (h.noteEvent _) fun _ ↦
    .bind (ht _) fun _ ↦ .bind (h.noteEvent _) fun _ ↦ .pure

end Leaves

theorem executePhase (p : PhaseDescriptor) (rec : Option ℕ) (td : Bool) :
    Within R (TestExecutor.executePhase env (phaseExecutor env) p rec td) := by
  have hstop (o : PhaseExecutionOutcome) : Within R₀ (stopOnFirstFailure env o) := by
    refine .ite (fun _ ↦ .bind .gets fun phases ↦ .bind (h.exec.noteStep _ rfl) fun _ ↦ ?_)
      fun _ ↦ .pure
    split
    · exact .raise
    · exact .pure
  exact h.executeLeaf _ _ _ rec td (h.exec.skipPhase p) fun r ↦
    .bind (h.exec.executePhase p r) fun o ↦ .bind (h.exec.noteThread _) fun _ ↦ hstop o

section Sequences

variable {ns : List PhaseNode}
  (hns : ∀ n ∈ ns, ∀ rec td, Within R (executeNode env (phaseExecutor env) n rec td))

include hns

omit [Std.Refl R₀] [IsTrans RunState R₀]

theorem abortableSequence (rec : Option ℕ) :
    Within R (executeAbortableSequence env (phaseExecutor env) ns rec) := by
  induction ns with
  | nil => exact .pure
  | cons n ns ih =>
      exact .bind (h.onRun (h.exec.shared _)) fun _ ↦ .ite (fun _ ↦ .pure) fun _ ↦
        .bind (h.onRun (h.exec.noteThread _)) fun _ ↦ .bind (hns n List.mem_cons_self _ _) fun _ ↦
        .ite (fun _ ↦ .pure) fun _ ↦ ih fun m hm ↦ hns m (List.mem_cons_of_mem _ hm)

theorem teardownSequence (rec : Option ℕ) (ret : ExecutorReturn) :
    Within R (executeTeardownSequence env (phaseExecutor env) ns rec ret) := by
  induction ns generalizing ret with
  | nil => exact .pure
  | cons n ns ih =>
      exact .bind (h.onRun (h.exec.shared _)) fun _ ↦ .ite (fun _ ↦ .pure) fun _ ↦
        .bind (hns n List.mem_cons_self _ _) fun _ ↦
        ih (fun m hm ↦ hns m (List.mem_cons_of_mem _ hm)) _

end Sequences

/-- The execution of any tree keeps the relation. -/
theorem tree :
    (∀ n rec td, Within R (executeNode env (phaseExecutor env) n rec td)) ∧
      ∀ s rec td, Within R (executeSequence env (phaseExecutor env) s rec td) := by
  apply PhaseNode.tree_induction
  case phase =>
    intro p rec td
    exact h.visiting _ _ (h.executePhase p rec td)
  case checkpoint =>
    intro c rec td
    exact h.visiting _ _ (h.executeLeaf _ _ _ rec td (h.exec.skipCheckpoint c) (h.exec.evaluateCheckpoint c))
  case unhandled =>
    intro rec td
    exact h.visiting _ _ (.bind (h.onRun (h.exec.noteStep _ rfl)) fun _ ↦ .pure)
  case sequence =>
    intro s hs rec td
    refine h.visiting _ _ (h.reaching s rec td ?_)
    unfold executeSequenceNode
    cases s.kind with
    | plain => exact hs rec td
    | subtest => exact h.executeSubtest s rec fun rec ↦ hs rec td
    | branch c => exact h.branch (hs rec td)
  case group =>
    rintro ⟨setup, main, teardown, name⟩ hs hm ht rec td
    have hpart {o : Option PhaseSequence} (td : Bool)
        (ho : ∀ s ∈ o, ∀ rec td, Within R (executeSequence env (phaseExecutor env) s rec td)) :
        Within R (executePart env (phaseExecutor env) o rec td) := by
      cases o with
      | none => exact .pure
      | some s => exact h.reaching s rec td (ho s rfl rec td)
    exact h.visiting _ _ (.bind (h.onRun (h.exec.shared _)) fun _ ↦
      h.executePhaseGroup _ rec td (hpart td hs) (hpart td hm) fun b ↦ hpart b ht)
  case nodes =>
    intro kind name ns hns rec td
    refine h.within rfl (.ite (fun _ ↦ ?_) fun _ ↦ h.abortableSequence hns rec)
    exact .bind (h.onRun (h.exec.shared _)) fun _ ↦
      .finally' (h.teardownSequence hns rec _) (h.onRun (h.exec.shared _))

end TreeKept

/-! ## The thread of a test -/

namespace TreeKept

variable {env : Env} {R₀ : RunState → RunState → Prop} {R : World → World → Prop}
  (h : TreeKept env R₀ R)

include h

theorem setLastOutcome (o : PhaseExecutionOutcome) (unit : String) : Within R (setLastOutcome o unit) :=
  .modify fun _ ↦ h.world rfl rfl rfl

variable [Std.Refl R] [IsTrans World R] (hinit : ∀ plugTypes, Within R₀ (initializePlugTypes plugTypes))

include hinit

theorem initializePlugs (plugTypes : Option (List PlugCls)) : Within R (initializePlugs plugTypes) :=
  .catching (.bind (h.onRun (hinit _)) fun _ ↦ .pure) fun _ ↦
    .ite (fun _ ↦ .bind (h.setLastOutcome _ _) fun _ ↦ .pure) fun _ ↦ .raise

theorem executeTestStart [Std.Refl R₀] [IsTrans RunState R₀] (p : PhaseDescriptor) :
    Within R (executeTestStart (phaseExecutor env) p) :=
  .bind (h.initializePlugs hinit _) fun _ ↦ .ite
    (fun _ ↦ .bind (h.onRun (h.exec.noteThread _)) fun _ ↦ .pure)
    fun _ ↦ .bind (h.onRun (h.exec.executePhase p none)) fun _ ↦
      .bind (h.onRun (h.exec.noteThread _)) fun _ ↦
      .ite (fun _ ↦ .bind (h.setLastOutcome _ _) fun _ ↦ .pure) fun _ ↦ .pure

end TreeKept

/-- The test state without what starting and finishing a test writes to it. -/
def TestState.lasting (t : TestState) : TestState :=
  { t with
    status := .WAITING_FOR_TEST_START
    testRecord := { t.testRecord with
      startTimeMillis := 0
      endTimeMillis := none
      outcome := none
      outcomeDetails := []
      marginal := none } }

theorem TestState.plugManager_of_lasting {t t' : TestState} (h : t'.lasting = t.lasting) :
    t'.plugManager = t.plugManager := by
  have hmanager := congrArg TestState.plugManager h
  exact hmanager

/-- The world once the `TestState` of the run is made. -/
def World.withTestState (test : Test) (w : World) : World :=
  { w with
    testStateCreated := true
    run := w.run.mapTestState fun _ ↦ { plugManager := { plugTypes := test.plugTypes } } }

/-- Steps that tell which stage finalises the test. -/
def Step.isFinalisation : Step → Bool
  | finalizedNormally | finalizedFromOutcome _ | finalizedAborted => true
  | _ => false

/-- The statements that finish a test keep `R`. -/
structure FinishKept (env : Env) (R : RunState → RunState → Prop) : Prop where
  abortIsSet : Within R (shared env Sync.abortIsSet)
  callUser : ∀ {α : Type} (f : ℕ → α), Within R (callUser f)
  finalisation : ∀ x : Step, x.isFinalisation = true → Within R (noteStep x)
  testState : ∀ f : TestState → TestState, (∀ t, (f t).lasting = t.lasting) →
    Within R (Act.modify (RunState.mapTestState f) : Exec Unit)

/-- Only the run of a world changes, as `R` says. -/
def World.RunStep (R : RunState → RunState → Prop) (w w' : World) : Prop :=
  ∃ s, R w.run s ∧ w' = w.setRun s

instance {R : RunState → RunState → Prop} [Std.Refl R] : Std.Refl (World.RunStep R) where
  refl w := ⟨w.run, Std.Refl.refl _, rfl⟩

instance {R : RunState → RunState → Prop} [IsTrans RunState R] : IsTrans World (World.RunStep R) where
  trans := by
    rintro w _ _ ⟨s, hs, rfl⟩ ⟨s', hs', rfl⟩
    exact ⟨s', IsTrans.trans _ _ _ hs hs', rfl⟩

theorem World.RunStep.onRun {R : RunState → RunState → Prop} {α : Type} {x : Exec α} (hx : Within R x) :
    Within (RunStep R) (onRun x) :=
  fun w ↦ ⟨_, hx w.run, rfl⟩

/-- `_execute_test_teardown` once the plugs are torn down. -/
def finishTest (env : Env) : Executor Unit := do
  if ← onRun (shared env Sync.abortIsSet) then
    onRun (noteStep .finalizedAborted)
    onRun abortTest
  else
    let unit ← Act.gets (·.lastExecutionUnit)
    match ← Act.gets (·.lastOutcome) with
    | some o =>
      if o.isTerminal then
        onRun (noteStep (.finalizedFromOutcome o))
        onRun (finalizeFromPhaseOutcome env o (unit.getD "None"))
      else
        onRun (noteStep .finalizedNormally)
        onRun finalizeNormally
    | none =>
      onRun (noteStep .finalizedNormally)
      onRun finalizeNormally

theorem executeTestTeardown_eq (env : Env) : executeTestTeardown env = (do
    if !(← Act.gets (·.testStateCreated)) then
      Act.raise (.ofClass .TestStopError "Test stopped.")
    onRun tearDownPlugs
    finishTest env) := rfl

/-- The `finally` of `_thread_proc`. -/
def endThread (env : Env) : Executor Unit := do
  executeTestTeardown env
  Act.modify fun w ↦ { w with executionFinished := true }

namespace FinishKept

variable {env : Env} {R : RunState → RunState → Prop} (h : FinishKept env R)

include h

theorem testRecord (f : TestRecord → TestRecord)
    (hf : ∀ t : TestState, ({ t with testRecord := f t.testRecord } : TestState).lasting = t.lasting) :
    Within R (Act.modify (RunState.mapTestRecord f) : Exec Unit) :=
  h.testState _ hf

theorem addOutcomeDetails (code description : String) :
    Within R (addOutcomeDetails code description) :=
  h.testRecord _ fun _ ↦ rfl

variable [Std.Refl R] [IsTrans RunState R]

theorem finalizeTest (outcome : Outcome) : Within R (finalizeTest outcome) := by
  have hend : Within R (do
      let now ← timeMillis
      Act.modify (RunState.mapTestState fun t ↦
        { t with status := .COMPLETED, testRecord.endTimeMillis := some now }) : Exec Unit) :=
    .bind (h.callUser _) fun _ ↦ h.testState _ fun _ ↦ rfl
  have hbody : Within R (do
      Act.modify (RunState.mapTestRecord fun r ↦ { r with outcome := some outcome })
      if (← Act.gets (·.testRecord.startTimeMillis)) = 0 then
        let now ← timeMillis
        Act.modify (RunState.mapTestRecord fun r ↦ { r with startTimeMillis := now })
      let now ← timeMillis
      Act.modify (RunState.mapTestState fun t ↦
        { t with status := .COMPLETED, testRecord.endTimeMillis := some now }) : Exec Unit) :=
    .bind (h.testRecord _ fun _ ↦ rfl) fun _ ↦ .bind .gets fun _ ↦
      .ite (fun _ ↦ .bind (h.callUser _) fun _ ↦ .bind (h.testRecord _ fun _ ↦ rfl) fun _ ↦ hend)
        fun _ ↦ hend
  exact .bind .gets fun _ ↦ .ite (fun _ ↦ .bind .raise fun _ ↦ hbody) fun _ ↦ hbody

theorem finalizeFromPhaseOutcome (o : PhaseExecutionOutcome) (unit : String) :
    Within R (finalizeFromPhaseOutcome env o unit) := by
  have hfailure : Within R (outcomeIsFailureException env.testOptions o) := by
    unfold outcomeIsFailureException
    split
    · exact .pure
    · exact .ite (fun _ ↦ .pure) fun _ ↦ .raise
  exact .bind .gets fun _ ↦ .ite (fun _ ↦ .pure) fun _ ↦
    .ite (fun _ ↦ .bind (h.addOutcomeDetails _ _) fun _ ↦ .bind hfailure fun _ ↦
      .ite (fun _ ↦ h.finalizeTest _) fun _ ↦ h.finalizeTest _) fun _ ↦
    .ite (fun _ ↦ .bind (h.addOutcomeDetails _ _) fun _ ↦ h.finalizeTest _) fun _ ↦
    .ite (fun _ ↦ .bind (h.addOutcomeDetails _ _) fun _ ↦ h.finalizeTest _) fun _ ↦ .pure

theorem finalizeNormally : Within R finalizeNormally := by
  have hmultidim : Within R addMultidimOutcomeDetails := by
    refine h.testRecord _ fun t ↦ ?_
    have hfold (ms : List Measurement) (r : TestRecord) :
        ({ t with testRecord := ms.foldl (fun r m ↦
          r.addOutcomeDetails "Multidim Measurement Failure" (multidimMessage m)) r } : TestState).lasting =
          ({ t with testRecord := r } : TestState).lasting := by
      induction ms generalizing r with
      | nil => rfl
      | cons m ms ih => exact ih _
    exact hfold _ _
  exact .bind .gets fun _ ↦ .ite (fun _ ↦ .pure) fun _ ↦ .ite (fun _ ↦ h.finalizeTest _) fun _ ↦
    .ite (fun _ ↦ .bind hmultidim fun _ ↦ h.finalizeTest _) fun _ ↦
    .ite (fun _ ↦ .bind (h.addOutcomeDetails _ _) fun _ ↦ h.finalizeTest _) fun _ ↦
    .ite (fun _ ↦ h.finalizeTest _) fun _ ↦ .ite (fun _ ↦ h.finalizeTest _) fun _ ↦
    .bind (h.testRecord _ fun _ ↦ rfl) fun _ ↦ h.finalizeTest _

theorem abortTest : Within R abortTest :=
  .bind .gets fun _ ↦ .ite (fun _ ↦ .pure) fun _ ↦
    .bind (h.addOutcomeDetails _ _) fun _ ↦ h.finalizeTest _

theorem finishTest : Within (World.RunStep R) (finishTest env) := by
  have hnormal : Within (World.RunStep R) (do
      onRun (OpenHtf.noteStep .finalizedNormally)
      onRun OpenHtf.finalizeNormally : Executor Unit) :=
    .bind (.onRun (h.finalisation _ rfl)) fun _ ↦ .onRun h.finalizeNormally
  refine .bind (.onRun (h.abortIsSet)) fun _ ↦
    .ite (fun _ ↦ .bind (.onRun (h.finalisation _ rfl)) fun _ ↦ .onRun h.abortTest) fun _ ↦
    .bind .gets fun unit ↦ .bind .gets fun o ↦ ?_
  cases o with
  | none => exact hnormal
  | some o =>
      exact .ite (fun _ ↦ .bind (.onRun (h.finalisation _ rfl)) fun _ ↦
        .onRun (h.finalizeFromPhaseOutcome _ _)) fun _ ↦ hnormal

end FinishKept

/-- The `finally` of `_thread_proc` comes last, whatever its `try` came to. -/
theorem threadProc_snd (env : Env) (exec : PhaseExecutor) (test : Test) (w : World) :
    (threadProc env exec test w).2 =
      (endThread env (threadBody env exec test { w with executionFinished := false }).2).2 := by
  let w₁ : World := { w with executionFinished := false }
  have hproc : threadProc env exec test w =
      Act.finally' (threadBody env exec test >>= fun _ ↦ pure ()) (endThread env) w₁ := rfl
  rw [hproc]
  simp only [Act.finally', bind_apply]
  rcases threadBody env exec test w₁ with ⟨_ | _, w₂⟩ <;> simp only [andThen, pure_apply] <;>
    rcases endThread env w₂ with ⟨_ | _, w₃⟩ <;> rfl

/-- Without a `TestState` the thread ends with a `TestStopError`. -/
theorem endThread_of_not_created {env : Env} {w : World} (hw : w.testStateCreated = false) :
    (endThread env w).2 = w := by
  simp [endThread, executeTestTeardown_eq, hw, andThen]

theorem threadBody_of_placeholder {env : Env} {exec : PhaseExecutor} {test : Test} {w : World}
    (hplugs : test.plugTypes.any (·.isPlaceholder) = true) :
    threadBody env exec test w = (.error (.ofClass .InvalidPlugError
      "Plug is a placeholder, replace it using with_plugs()."), w) := by
  simp [threadBody, createTestState, hplugs, andThen]

/-- The statements that `_thread_proc` consists of up to its `finally` keep `R`. -/
structure BodyKept (env : Env) (R₀ : RunState → RunState → Prop) (R : World → World → Prop) :
    Prop extends TreeKept env R₀ R where
  started : ∀ now, Within R₀ (Act.modify
    (RunState.mapTestRecord fun r ↦ { r with startTimeMillis := now }) : Exec Unit)
  running : Within R₀ setStatusRunning
  initializePlugTypes : ∀ plugTypes, Within R₀ (initializePlugTypes plugTypes)
  acceptTestDiagnosis : ∀ d, Within R₀ (acceptTestDiagnosis d)

namespace BodyKept

variable {env : Env} {R₀ : RunState → RunState → Prop} {R : World → World → Prop}
  (h : BodyKept env R₀ R)

include h

variable [Std.Refl R₀] [IsTrans RunState R₀] [Std.Refl R] [IsTrans World R]

theorem executeTestDiagnosers (ds : List Diagnoser) : Within R (executeTestDiagnosers ds) := by
  have hone (d : Diagnoser) : Within R (executeTestDiagnoser d) := by
    refine .catching (h.onRun (within_runDiagnoser h.exec.callUser (fun _ ↦ h.exec.noteStep _ rfl)
      h.acceptTestDiagnosis d)) fun e ↦ .bind (h.onRun (h.exec.noteStep _ rfl)) fun _ ↦
      .ite (fun _ ↦ .bind .gets fun _ ↦ .ite (fun _ ↦ .pure) fun _ ↦ h.setLastOutcome _ _) fun _ ↦ .raise
  induction ds with
  | nil => exact .pure
  | cons d ds ih => exact .bind (hone d) fun _ ↦ ih

/-- The `try` of `_thread_proc` from the new `TestState` on. -/
theorem threadBody (test : Test) : ∃ rest : Executor (Option ExecutorReturn),
    threadBody env (phaseExecutor env) test = (createTestState test >>= fun _ ↦ rest) ∧
      Within R rest := by
  refine ⟨_, rfl, .bind (h.onRun (h.exec.shared _)) fun _ ↦ ?_⟩
  have hphases : Within R (runPhases env (phaseExecutor env) test.phaseSequence) :=
    .bind (h.tree.1 _ _ _) fun _ ↦ .bind (h.executeTestDiagnosers _) fun _ ↦ .pure
  have hstarted : Within R₀ markTestStarted :=
    .bind .gets fun _ ↦ .ite
      (fun _ ↦ .bind .raise fun _ ↦ .bind (h.exec.callUser _) fun _ ↦ h.started _)
      fun _ ↦ .bind (h.exec.callUser _) fun _ ↦ h.started _
  have htest : ∀ terminal : Bool, Within R (if terminal then pure none
      else do
        onRun markTestStarted
        if ← TestExecutor.initializePlugs none then pure none
        else
          onRun setStatusRunning
          let ret ← runPhases env (phaseExecutor env) test.phaseSequence
          pure (some ret) : Executor (Option ExecutorReturn)) := fun _ ↦
    .ite (fun _ ↦ .pure) fun _ ↦ .bind (h.onRun hstarted) fun _ ↦ 
    .bind (h.initializePlugs h.initializePlugTypes _) fun _ ↦ .ite (fun _ ↦ .pure) fun _ ↦ .bind (h.onRun h.running) fun _ ↦ .bind hphases fun _ ↦ .pure
  cases test.testStart with
  | none => exact .bind .pure htest
  | some p => exact .bind (h.executeTestStart h.initializePlugTypes p) htest

/-- The relation is kept from the new `TestState` on. -/
theorem threadBody_kept {test : Test} (hplugs : test.plugTypes.any (·.isPlaceholder) = false) (w : World) :
    R (w.withTestState test) (TestExecutor.threadBody env (phaseExecutor env) test w).2 := by
  obtain ⟨rest, hbody, hrest⟩ := h.threadBody test
  have hcreate : createTestState test w = (.ok (), w.withTestState test) := by
    simp [createTestState, hplugs, World.withTestState]
  rw [hbody, bind_apply, hcreate]
  exact hrest _

/-- A run of a test: nothing happens when a plug is a placeholder, and otherwise
the relation is kept from the new `TestState` to the end, which comes last. -/
theorem threadProc (test : Test) {w : World} (hw : w.testStateCreated = false) :
    (threadProc env (phaseExecutor env) test w).2 = { w with executionFinished := false } ∨
      ∃ w', R (w.withTestState test) w' ∧
        (threadProc env (phaseExecutor env) test w).2 = (endThread env w').2 := by
  let w₁ : World := { w with executionFinished := false }
  rw [threadProc_snd]
  cases hplugs : test.plugTypes.any (·.isPlaceholder) with
  | true =>
      left
      rw [threadBody_of_placeholder hplugs]
      exact endThread_of_not_created hw
  | false =>
      have hstart : R (w.withTestState test) (w₁.withTestState test) := h.world rfl rfl rfl
      exact .inr ⟨_, IsTrans.trans _ _ _ hstart (h.threadBody_kept hplugs w₁), rfl⟩

end BodyKept

structure ThreadKept (env : Env) (R₀ : RunState → RunState → Prop) (R : World → World → Prop) :
    Prop extends TreeKept env R₀ R where
  finalisation : ∀ x : Step, x.isFinalisation = true → Within R₀ (noteStep x)
  testState : ∀ f : TestState → TestState, (∀ t, (f t).lasting = t.lasting) →
    Within R₀ (Act.modify (RunState.mapTestState f) : Exec Unit)
  initializePlugTypes : ∀ plugTypes, Within R₀ (initializePlugTypes plugTypes)
  tearDownPlugs : Within R₀ tearDownPlugs
  acceptTestDiagnosis : ∀ d, Within R₀ (acceptTestDiagnosis d)

namespace ThreadKept

variable {env : Env} {R₀ : RunState → RunState → Prop} {R : World → World → Prop}
  (h : ThreadKept env R₀ R)

include h

theorem finish : FinishKept env R₀ where
  abortIsSet := h.exec.shared _
  callUser := h.exec.callUser
  finalisation := h.finalisation
  testState := h.testState

variable [Std.Refl R₀] [IsTrans RunState R₀] [Std.Refl R] [IsTrans World R]

omit [Std.Refl R] [IsTrans World R] in
theorem body : BodyKept env R₀ R where
  toTreeKept := h.toTreeKept
  started _ := h.finish.testRecord _ fun _ ↦ rfl
  running := .bind .gets fun _ ↦ .ite (fun _ ↦ .pure) fun _ ↦ .ite (fun _ ↦ .raise) fun _ ↦
    h.testState _ fun _ ↦ rfl
  initializePlugTypes := h.initializePlugTypes
  acceptTestDiagnosis := h.acceptTestDiagnosis

theorem executeTestTeardown : Within R (executeTestTeardown env) := by
  have hfinish : Within R (do
      onRun OpenHtf.tearDownPlugs
      finishTest env : Executor Unit) :=
    .bind (h.onRun h.tearDownPlugs) fun _ ↦ h.finish.finishTest.weaken fun w w' hstep ↦ by
      obtain ⟨s, hs, rfl⟩ := hstep
      exact h.lift hs
  rw [executeTestTeardown_eq]
  exact .bind .gets fun _ ↦ .ite (fun _ ↦ .bind .raise fun _ ↦ hfinish) fun _ ↦ hfinish

theorem endThread : Within R (endThread env) :=
  .bind h.executeTestTeardown fun _ ↦ .modify fun _ ↦ h.world rfl rfl rfl

/-- The relation is kept from the new `TestState`, if there is one, to the end. -/
theorem final (test : Test) (abortCalls : ℕ) :
    (World.final env test abortCalls).run = (World.initial test abortCalls).run ∨
      R ((World.initial test abortCalls).withTestState test) (World.final env test abortCalls) := by
  rcases h.body.threadProc test (w := World.initial test abortCalls) rfl with hrun | ⟨w', hw', hrun⟩
  · exact .inl (congrArg World.run hrun)
  · right
    rw [World.final, hrun]
    exact IsTrans.trans _ _ _ hw' (h.endThread w')

end ThreadKept

/-! ## Plugs -/

section Plugs

variable {R : RunState → RunState → Prop} [Std.Refl R] [IsTrans RunState R]
  (hnote : ∀ p, Within R (noteStep (.plugTornDown p))) (hmap : ∀ f, Within R (mapPlugManager f))

include hnote hmap

theorem within_tearDownPlugs : Within R tearDownPlugs := by
  have hlist (items : List (ℕ × PlugInstance)) : Within R (tearDownPlugList items) := by
    induction items with
    | nil => exact .pure
    | cons item items ih => exact .bind (hnote _) fun _ ↦ ih
  exact .bind .gets fun _ ↦ .bind (hlist _) fun _ ↦ hmap _

theorem within_initializePlugTypes (hcall : ∀ {α : Type} (f : ℕ → α), Within R (callUser f))
    (hraised : ∀ e, Within R (noteStep (.raised e)))
    (hmade : ∀ p setsLogger, Within R (noteStep (.plugConstructed p setsLogger)))
    (plugTypes : Option (List PlugCls)) : Within R (initializePlugTypes plugTypes) := by
  have hconstruct (t : PlugType) : Within R (constructPlug t) := by
    refine .ite (fun _ ↦ .raise) fun _ ↦ .ite (fun _ ↦ .raise) fun _ ↦ .bind .gets fun object ↦
      .bind (hcall _) fun r ↦ ?_
    cases r with
    | raised e => exact .bind (hraised e) fun _ ↦ .raise
    | made setsLogger => exact .bind (hmade _ _) fun _ ↦ .ite (fun _ ↦ .raise) fun _ ↦ .pure
  have hone (c : PlugCls) : Within R (initializePlug c) := by
    cases c with
    | placeholder _ => exact .raise
    | plug t =>
        exact .bind .gets fun _ ↦ .ite (fun _ ↦ .pure) fun _ ↦
          .bind (within_exceptException (hconstruct t) fun _ ↦
            .bind (within_tearDownPlugs hnote hmap) fun _ ↦ .raise) fun _ ↦ hmap _
  have hlist (cs : List PlugCls) : Within R (initializePlugList cs) := by
    induction cs with
    | nil => exact .pure
    | cons c cs ih => exact .bind (hone c) fun _ ↦ ih
  exact .bind .gets fun _ ↦ hlist _

end Plugs

/-! ## Relations that every single write keeps -/

/-- Steps that are noted with what they are about: a plug, the change of a phase
record, or the end of the test. -/
def Step.isChange : Step → Bool
  | plugConstructed _ _ | plugTornDown _ | lastPhaseRecordChanged => true
  | x => x.isFinalisation

/-- Every statement that is not about plugs keeps `R`, by what it writes. -/
structure WritesKept (env : Env) (R : RunState → RunState → Prop) : Prop where
  shared : ∀ {α : Type} (op : Sync → α × Sync), Within R (shared env op)
  noteThread : ∀ f, Within R (noteThread f)
  callUser : ∀ {α : Type} (f : ℕ → α), Within R (callUser f)
  noteStep : ∀ x : Step, x.isChange = false → Within R (noteStep x)
  phaseState : ∀ f : RunState → PhaseState,
    Within R (Act.modify fun s ↦ { s with phaseState := f s } : Exec Unit)
  addPhaseRecord :
    Within R (Act.modify fun s ↦ s.mapTestRecord (·.addPhaseRecord s.phaseState.phaseRecord) : Exec Unit)
  addSubtestRecord : ∀ r,
    Within R (Act.modify (RunState.mapTestRecord (·.addSubtestRecord r)) : Exec Unit)
  addBranchRecord : ∀ r,
    Within R (Act.modify (RunState.mapTestRecord (·.addBranchRecord r)) : Exec Unit)
  addCheckpointRecord : ∀ r,
    Within R (Act.modify (RunState.mapTestRecord (·.addCheckpointRecord r)) : Exec Unit)
  recordDiagnosis : ∀ d, Within R (recordDiagnosis d)
  storeDiagnosis : ∀ d, Within R (storeDiagnosis d)
  skipLast : ∀ s last, s.testRecord.phases.getLast? = some last → last.outcome = some .FAIL →
    R s (s.skipLast last)

/-- The runs of two worlds of one `TestState` are related by `R`. -/
structure World.OnRun (R : RunState → RunState → Prop) (w w' : World) : Prop where
  run : R w.run w'.run
  created : w'.testStateCreated = w.testStateCreated

namespace World.OnRun

variable {R : RunState → RunState → Prop}

instance [Std.Refl R] : Std.Refl (OnRun R) where
  refl w := ⟨Std.Refl.refl w.run, rfl⟩

instance [IsTrans RunState R] : IsTrans World (OnRun R) where
  trans _ _ _ h h' := ⟨IsTrans.trans (r := R) _ _ _ h.run h'.run, h'.created.trans h.created⟩

theorem of_eq [Std.Refl R] {w w' : World} (hrun : w'.run = w.run)
    (hcreated : w'.testStateCreated = w.testStateCreated) : OnRun R w w' :=
  ⟨hrun ▸ Std.Refl.refl _, hcreated⟩

theorem onRun {α : Type} {x : Exec α} (hx : Within R x) : Within (OnRun R) (onRun x) :=
  fun w ↦ ⟨hx w.run, rfl⟩

theorem within {α : Type} {x : Executor α} (hx : Within (OnRun R) x) (f : Frame) :
    Within (OnRun R) (within f x) := fun w ↦ by
  have h := hx (w.setCallstack (f :: w.callstack))
  exact ⟨h.run, h.created⟩

end World.OnRun

namespace WritesKept

variable {env : Env} {R : RunState → RunState → Prop} [Std.Refl R] [IsTrans RunState R]
  (h : WritesKept env R)

include h

omit [Std.Refl R] [IsTrans RunState R] in
theorem mapPhaseState (f : PhaseState → PhaseState) :
    Within R (Act.modify (RunState.mapPhaseState f) : Exec Unit) :=
  h.phaseState fun s ↦ f s.phaseState

omit [Std.Refl R] in
theorem acceptPhaseDiagnosis (d : Diagnosis) : Within R (acceptPhaseDiagnosis d) :=
  .bind (h.noteStep _ rfl) fun _ ↦ .bind (h.mapPhaseState _) fun _ ↦
    .ite (fun _ ↦ .bind (h.recordDiagnosis d) fun _ ↦ h.storeDiagnosis d) fun _ ↦ h.storeDiagnosis d

theorem acceptTestDiagnosis (d : Diagnosis) : Within R (acceptTestDiagnosis d) := by
  have haccept : Within R (do
      OpenHtf.noteStep (.diagnosisAccepted d)
      OpenHtf.recordDiagnosis d
      OpenHtf.storeDiagnosis d : Exec Unit) :=
    .bind (h.noteStep _ rfl) fun _ ↦ .bind (h.recordDiagnosis d) fun _ ↦ h.storeDiagnosis d
  exact .ite (fun _ ↦ .bind .raise fun _ ↦ haccept) fun _ ↦ haccept

omit [Std.Refl R] in
theorem endKept : EndKept R where
  callUser := h.callUser
  raised _ := h.noteStep _ rfl
  phaseState _ _ _ := h.mapPhaseState _
  setRaised _ := h.mapPhaseState _
  prediagnosis _ := h.mapPhaseState _
  accept := h.acceptPhaseDiagnosis

omit [Std.Refl R] [IsTrans RunState R] in
theorem plain : PlainKept env R where
  shared := h.shared
  noteThread := h.noteThread
  callUser := h.callUser
  noteStep x hx := h.noteStep x (by cases x <;> first | rfl | cases hx)

theorem phase : PhaseKept env R where
  toPlainKept := h.plain
  phaseState _ _ := h.mapPhaseState _
  enterPhase _ := .bind (h.shared _) fun _ ↦ .ite (fun _ ↦ .raise) fun _ ↦
    .bind (h.callUser _) fun _ ↦ .bind (h.noteStep _ rfl) fun _ ↦ h.phaseState _
  leavePhase := .bind (.catching (h.endKept.finalizePhase env) fun _ ↦
      .bind (h.noteStep _ rfl) fun _ ↦ .raise) fun _ ↦
    .bind h.addPhaseRecord fun _ ↦ h.shared _
  lastRepeatFailed := within_lastRepeatFailed (fun _ ↦ h.noteStep _ rfl) h.skipLast

theorem exec : ExecKept env R where
  toRoundsKept := h.phase.rounds
  skipPhase := h.phase.skipPhase
  evaluateCheckpoint := within_evaluateCheckpoint h.callUser (fun _ _ ↦ h.noteStep _ rfl) h.addCheckpointRecord
  skipCheckpoint := within_skipCheckpoint h.callUser (fun _ _ ↦ h.noteStep _ rfl) h.addCheckpointRecord

theorem tree : TreeKept env R (World.OnRun R) where
  exec := h.exec
  lift hs := ⟨hs, rfl⟩
  world hrun _ hcreated := .of_eq hrun hcreated
  within _ hx := World.OnRun.within hx _
  branch {s c rec td x} hx := by
    have hadd (taken : Bool) (t : ℕ) (ret : ExecutorReturn) : Within (World.OnRun R) (do
        onRun (Act.modify (RunState.mapTestRecord (·.addBranchRecord ⟨s.name, c, taken, t⟩)))
        pure ret : Executor ExecutorReturn) :=
      .bind (World.OnRun.onRun (h.addBranchRecord _)) fun _ ↦ .pure
    have hlost : Within (World.OnRun R) (Act.catching x fun e ↦ do
        onRun (OpenHtf.noteStep .branchLost)
        Act.raise e) :=
      .catching hx fun _ ↦ .bind (World.OnRun.onRun (h.noteStep _ rfl)) fun _ ↦ .raise
    exact .bind .gets fun _ ↦ .ite (fun _ ↦ .pure) fun _ ↦ .bind (World.OnRun.onRun (h.callUser _)) fun _ ↦
      .bind .gets fun _ ↦ .bind (World.OnRun.onRun (h.noteStep _ rfl)) fun _ ↦ .bind .gets fun _ ↦
      .bind (.modify fun _ ↦ World.OnRun.of_eq rfl rfl) fun _ ↦
      .ite (fun _ ↦ .bind (World.OnRun.within hlost _) fun _ ↦ hadd _ _ _) fun _ ↦ .bind .pure fun _ ↦
      hadd _ _ _
  leaveSubtest i outerFailed ret := by
    have hend : Within (World.OnRun R) (do
        let endTimeMillis ← onRun timeMillis
        Act.modify fun w ↦
          w.setSubtestRecord i { w.subtestRecords i with endTimeMillis := some endTimeMillis }
        let r ← Act.gets (·.subtestRecords i)
        onRun (Act.modify (RunState.mapTestRecord (·.addSubtestRecord r)))
        noteEvent fun _ ↦ .subtestRecorded i outerFailed ret r : Executor Unit) :=
      .bind (World.OnRun.onRun (h.callUser _)) fun _ ↦ .bind (.modify fun _ ↦ World.OnRun.of_eq rfl rfl) fun _ ↦
        .bind .gets fun _ ↦ .bind (World.OnRun.onRun (h.addSubtestRecord _)) fun _ ↦
        .modify fun _ ↦ World.OnRun.of_eq rfl rfl
    exact .bind .gets fun _ ↦ .bind (World.OnRun.onRun (h.noteStep _ rfl)) fun _ ↦
      .ite (fun _ ↦ .bind (.modify fun _ ↦ World.OnRun.of_eq rfl rfl) fun _ ↦ hend) fun _ ↦ hend

theorem body (hstarted : ∀ now, Within R (Act.modify
      (RunState.mapTestRecord fun r ↦ { r with startTimeMillis := now }) : Exec Unit))
    (hrunning : Within R setStatusRunning)
    (hinit : ∀ plugTypes, Within R (initializePlugTypes plugTypes)) :
    BodyKept env R (World.OnRun R) where
  toTreeKept := h.tree
  started := hstarted
  running := hrunning
  initializePlugTypes := hinit
  acceptTestDiagnosis := h.acceptTestDiagnosis

/-- The thread keeps such a relation if the plug manager does, and what starts and
finishes a test. -/
theorem thread (hfinal : ∀ x : Step, x.isFinalisation = true → Within R (OpenHtf.noteStep x))
    (hstate : ∀ f : TestState → TestState, (∀ t, (f t).lasting = t.lasting) →
      Within R (Act.modify (RunState.mapTestState f) : Exec Unit))
    (hinit : ∀ plugTypes, Within R (initializePlugTypes plugTypes))
    (hdown : Within R tearDownPlugs) : ThreadKept env R (World.OnRun R) where
  toTreeKept := h.tree
  finalisation := hfinal
  testState := hstate
  initializePlugTypes := hinit
  tearDownPlugs := hdown
  acceptTestDiagnosis := h.acceptTestDiagnosis

end WritesKept

end OpenHtf
