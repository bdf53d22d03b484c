import OpenHtf.Completion
import OpenHtf.Conformance

/-!
# The thread of a test keeps to the protocol

What `Conformance` says of a tree is continued to `_thread_proc`: the start
phase, the plugs, the test diagnosers and the end of the test.
-/

set_option autoImplicit false

namespace OpenHtf

open Act TestExecutor

/-! ## Statements that share nothing -/

/-- The shared state is the same, and nothing that was noted is lost. -/
structure Aside (s s' : RunState) : Prop where
  sync : s'.sync = s.sync
  steps : s.steps <+: s'.steps

instance : Std.Refl Aside where
  refl _ := ⟨rfl, List.prefix_rfl⟩

instance : IsTrans RunState Aside where
  trans _ _ _ h h' := ⟨h'.sync.trans h.sync, h.steps.trans h'.steps⟩

instance : Std.Refl Stretch where
  refl := .refl

instance : IsTrans RunState Stretch where
  trans _ _ _ h h' := h.trans h'

theorem Aside.stretch {s s' : RunState} (h : Aside s s') : Stretch s s' := .of_sync h.sync h.steps

theorem aside_mapPlugManager (f : PlugManager → PlugManager) : Within Aside (mapPlugManager f) :=
  .modify fun _ ↦ ⟨rfl, List.prefix_rfl⟩

theorem aside_noteStep (x : Step) : Within Aside (noteStep x) :=
  .modify fun _ ↦ ⟨rfl, List.prefix_append _ _⟩

theorem aside_callUser {α : Type} (f : ℕ → α) : Within Aside (callUser f) :=
  fun _ ↦ ⟨rfl, List.prefix_rfl⟩

theorem aside_initializePlugTypes (plugTypes : Option (List PlugCls)) :
    Within Aside (initializePlugTypes plugTypes) := by
  apply within_initializePlugTypes
  · exact fun p ↦ aside_noteStep _
  · exact aside_mapPlugManager
  · exact aside_callUser
  · exact fun e ↦ aside_noteStep _
  · exact fun p b ↦ aside_noteStep _

/-! ## The plugs -/

/-- What the initialisation of plugs can raise. -/
def RaisedHere (e : PyExc) (s : RunState) : Prop := e.isException = true ∨ .raised e ∈ s.steps

section Plugs

variable {α : Type}

theorem safe_raisedHere {e : PyExc} (h : e.isException = true) :
    Safe (fun _ ↦ True) RaisedHere (Act.raise e : Exec α) := .raise fun _ _ ↦ .inl h

theorem initializePlug_raises (c : PlugCls) : Safe (fun _ ↦ True) RaisedHere (initializePlug c) := by
  have htrivial {β : Type} {x : Exec β} (h : ∀ s, ∃ a s', x s = (.ok a, s')) :
      Safe (fun _ ↦ True) RaisedHere x := by
    intro s _
    obtain ⟨a, s', hx⟩ := h s
    rw [wp, hx]
    trivial
  have hdown : Safe (fun _ ↦ True) RaisedHere tearDownPlugs := fun s _ ↦
    (tearDownPlugs_spec s).mono (fun _ _ _ ↦ trivial) fun _ _ hf ↦ hf.elim
  cases c with
  | placeholder name => exact safe_raisedHere (PyExc.isException_ofClass _ _)
  | plug t =>
      have hconstruct : Safe (fun _ ↦ True) RaisedHere (constructPlug t) := by
        refine .ite (fun _ ↦ safe_raisedHere (PyExc.isException_ofClass _ _)) fun _ ↦
          .ite (fun _ ↦ safe_raisedHere (PyExc.isException_ofClass _ _)) fun _ ↦ .bind .gets fun object ↦
          .bind (htrivial fun s ↦ ⟨_, _, rfl⟩) fun r ↦ ?_
        cases r with
        | raised e =>
            refine fun s _ ↦ .inr ?_
            exact List.mem_append_right _ (List.mem_singleton_self _)
        | made setsLogger =>
            refine .bind (htrivial fun s ↦ ⟨_, _, rfl⟩) fun _ ↦ .ite (fun _ ↦ ?_) fun _ ↦ .pure
            exact safe_raisedHere (PyExc.isException_ofClass _ _)
      refine .bind .gets fun _ ↦ .ite (fun _ ↦ .pure) fun _ ↦
        .bind (.catching hconstruct fun e s he ↦ ?_) fun _ ↦ htrivial fun s ↦ ⟨_, _, rfl⟩
      rw [wp_ite]
      split
      · rename_i hex
        exact Safe.bind hdown (fun _ ↦ safe_raisedHere hex) s trivial
      · exact he

theorem initializePlugTypes_raises (plugTypes : Option (List PlugCls)) :
    Safe (fun _ ↦ True) RaisedHere (initializePlugTypes plugTypes) := by
  have hlist (cs : List PlugCls) : Safe (fun _ ↦ True) RaisedHere (initializePlugList cs) := by
    induction cs with
    | nil => exact .pure
    | cons c cs ih => exact .bind (initializePlug_raises c) fun _ ↦ ih
  exact .bind .gets fun _ ↦ hlist _

end Plugs

section Start

variable {env : Env} {p : PhaseDescriptor} {w : World}

theorem ran_setLastOutcome {w w' : World} {o : PhaseExecutionOutcome} (h : Ran w .CONTINUE w')
    (ho : o.isTerminal = true) (unit : String) :
    Ran w .CONTINUE { w' with lastOutcome := some o, lastExecutionUnit := some unit } := by
  refine ⟨h.toStretch, h.rest, fun _ ↦ rfl, fun _ o' ho' ↦ ?_, nofun⟩
  obtain rfl : o = o' := Option.some.inj ho'
  exact ho

theorem initializePlugs_spec (plugTypes : Option (List PlugCls)) (h : AtRest w.run) :
    wp (initializePlugs plugTypes)
      (fun b w' ↦ Ran w .CONTINUE w' ∧ w'.run.sync = w.run.sync ∧ (b = true → w'.lastOutcome.isSome = true))
      (fun _ w' ↦ Failed w w') w := by
  simp only [initializePlugs, wp_catching, wp_bind, wp_onRun, wp_pure]
  refine ((initializePlugTypes_raises plugTypes w.run trivial).and
    ((aside_initializePlugTypes plugTypes).wp w.run)).mono ?_ ?_
  · exact fun _ s ⟨_, ha⟩ ↦ ⟨ran_step ha.sync ha.steps rfl, ha.sync, nofun⟩
  · rintro e s ⟨he, ha⟩
    simp only [wp_ite, setLastOutcome, wp_bind, wp_modify, wp_pure, wp_raise]
    have hran : Ran w .CONTINUE (w.setRun s) := ran_step ha.sync ha.steps rfl
    split
    · exact ⟨ran_setLastOutcome hran rfl _, ha.sync, fun _ ↦ rfl⟩
    · rename_i hex
      refine ⟨ha.stretch, (h.of_sync ha.sync).thread, .inl ⟨e, ?_, by simpa using hex⟩⟩
      exact he.resolve_left hex

/-- A start is no longer pending. -/
theorem ran_notPending : Ran w .CONTINUE (w.setRun (w.run.mapSync (Sync.setStartPending false))) :=
  ⟨⟨.single (.setPending _ _ nofun), rfl, List.prefix_rfl⟩, fun h ↦ ⟨h.thread, h.lock, h.quiet⟩, id, id, nofun⟩

theorem executeTestStart_spec (h : Ready w.run) (hstart : w.run.MayStart) :
    wp (executeTestStart (phaseExecutor env) p)
      (fun b w' ↦ Ran w .CONTINUE w' ∧ (b = true → w'.lastOutcome.isSome = true))
      (fun _ w' ↦ Failed w w') w := by
  unfold executeTestStart
  rw [wp_bind]
  refine (initializePlugs_spec _ h.toAtRest).mono ?_ fun _ _ hf ↦ hf
  rintro failed w₁ ⟨h₁, hsync, hlast⟩
  rw [wp_ite]
  split
  · rename_i hb
    exact ⟨h₁.after ran_notPending, fun _ ↦ hlast hb⟩
  · have hready₁ := h.along h₁.toStretch (h₁.rest h.toAtRest)
    have hstart₁ : w₁.run.MayStart := by
      unfold RunState.MayStart
      rw [hsync]
      exact hstart
    simp only [wp_bind, wp_onRun, noteThread, wp_modify, wp_ite, setLastOutcome, wp_pure]
    refine (conducts_executePhase hready₁ hstart₁).mono ?_ ?_
    · rintro o s ⟨hs, hrest, -⟩
      have hphase : Ran w₁ .CONTINUE (w₁.setRun s) := ⟨hs, fun _ ↦ hrest, id, id, by simp⟩
      have h₂ := (h₁.after hphase).after ran_notPending
      split
      · rename_i ho
        exact ⟨ran_setLastOutcome h₂ ho _, fun _ ↦ rfl⟩
      · exact ⟨h₂, by simp⟩
    · rintro _ s ⟨hs, hthread, hfail⟩
      exact ⟨h₁.toStretch.trans hs, hthread, hfail⟩

end Start

/-! ## Before the test is started -/

/-- The test waits for its start, with the start time `t` in its record. -/
structure RunState.Waiting (t : ℕ) (s : RunState) : Prop where
  status : s.testState.status = .WAITING_FOR_TEST_START
  startTime : s.testRecord.startTimeMillis = t

theorem RunState.Waiting.of_eq {t : ℕ} {s s' : RunState} (h : s.Waiting t)
    (hstatus : s'.testState.status = s.testState.status)
    (hstart : s'.testRecord.startTimeMillis = s.testRecord.startTimeMillis) : s'.Waiting t :=
  ⟨hstatus.trans h.status, hstart.trans h.startTime⟩

theorem writesKept_waiting (env : Env) (t : ℕ) : WritesKept env (Preserves (RunState.Waiting t)) where
  shared _ _ h := h.of_eq rfl rfl
  noteThread _ _ h := h.of_eq rfl rfl
  callUser _ _ h := h.of_eq rfl rfl
  noteStep _ _ _ h := h.of_eq rfl rfl
  phaseState _ _ h := h.of_eq rfl rfl
  addPhaseRecord _ h := h.of_eq rfl rfl
  addSubtestRecord _ _ h := h.of_eq rfl rfl
  addBranchRecord _ _ h := h.of_eq rfl rfl
  addCheckpointRecord _ _ h := h.of_eq rfl rfl
  recordDiagnosis _ _ h := h.of_eq rfl rfl
  storeDiagnosis _ _ h := h.of_eq rfl rfl
  skipLast _ _ _ _ h := h.of_eq rfl rfl

theorem waiting_initializePlugTypes (t : ℕ) (plugTypes : Option (List PlugCls)) :
    Within (Preserves (RunState.Waiting t)) (initializePlugTypes plugTypes) := by
  apply within_initializePlugTypes
  · exact fun p ↦ .modify fun _ h ↦ h.of_eq rfl rfl
  · exact fun f ↦ .modify fun _ h ↦ h.of_eq rfl rfl
  · exact (writesKept_waiting {} t).callUser
  · exact fun e ↦ .modify fun _ h ↦ h.of_eq rfl rfl
  · exact fun p b ↦ .modify fun _ h ↦ h.of_eq rfl rfl

theorem markTestStarted_spec {s : RunState} (h : s.Waiting 0) :
    wp markTestStarted (fun _ s' ↦ Aside s s' ∧ ∃ t, s'.Waiting t) (fun _ _ ↦ False) s := by
  simp only [markTestStarted, timeMillis, wp_bind, wp_gets, wp_ite, h.startTime, ne_eq,
    not_true_eq_false, if_false, wp_callUser, wp_modify]
  exact ⟨⟨rfl, List.prefix_rfl⟩, _, h.status, rfl⟩

theorem setStatusRunning_spec {t : ℕ} {s : RunState} (h : s.Waiting t) :
    wp setStatusRunning (fun _ s' ↦ Aside s s') (fun _ _ ↦ False) s := by
  have hopen : s.testState.isAborted = false := by
    simp [TestState.isAborted, TestState.isFinalized, h.status]
  simp only [setStatusRunning, wp_bind, wp_gets, wp_ite, hopen, Bool.false_eq_true, if_false, h.status,
    ne_eq, not_true_eq_false, wp_modify]
  exact ⟨rfl, List.prefix_rfl⟩

/-! ## The body of the thread -/

/-- An exception was raised that no outcome tells of: a callable of the user raised
what is no `Exception`, or `phases[-1]` was looked up when there was no record. -/
def RunState.Derailed (s : RunState) : Prop :=
  s.PhaseFails ∨ ∃ e, .testDiagnoserRaised e ∈ s.steps ∧ e.isException = false

section Body

variable {env : Env} {test : Test} {w w' : World}

theorem Diagnosed.ran {es caught : List PyExc} (h : Diagnosed es caught w w') (hw : w.LastTerminal) :
    Ran w .CONTINUE w' := by
  obtain ⟨l, hl, -, -⟩ := h.steps
  refine ⟨.of_sync h.sync (hl ▸ List.prefix_append _ _), fun hr ↦ hr.of_sync h.sync, fun hsome ↦ ?_,
    fun _ ↦ h.lastTerminal hw, nofun⟩
  rw [h.lastOutcome]
  cases hlast : w.lastOutcome <;> simp_all

theorem runPhases_spec (s : PhaseSequence) (h : Ready w.run) (hw : w.LastTerminal) :
    wp (runPhases env (phaseExecutor env) s) (Ran w)
      (fun _ w' ↦ Stretch w.run w'.run ∧ w'.run.Derailed) w := by
  simp only [runPhases, wp_bind, wp_pure]
  refine (executeNode_ran s h).mono (fun r w₁ h₁ ↦ ?_) fun _ w₁ hf ↦ ⟨hf.toStretch, .inl hf.fails⟩
  have hw₁ := h₁.terminal hw
  refine (executeTestDiagnosers_spec env.testOptions.diagnosers hw₁).mono ?_ ?_
  · rintro - w₂ ⟨es, hes, -⟩
    exact h₁.after (hes.ran hw₁)
  · rintro e w₂ ⟨es, hes, -, he⟩
    refine ⟨h₁.toStretch.trans (hes.ran hw₁).toStretch, .inr ⟨e, ?_, he⟩⟩
    obtain ⟨l, hl, hraised, -⟩ := hes.steps
    have hmem : e ∈ l.filterMap Step.testDiagnoserException := hraised ▸ by simp
    obtain ⟨x, hx, hxe⟩ := List.mem_filterMap.mp hmem
    obtain rfl : x = .testDiagnoserRaised e := by
      cases x <;> simp_all [Step.testDiagnoserException]
    rw [hl]
    exact List.mem_append_right _ hx

/-- How a part of the body ends: when it does not end as it should, then there is
a reason that the end of the test looks at, or the run is derailed. -/
def EndsBody (x : Executor (Option ExecutorReturn)) (w : World) : Prop :=
  wp x (fun r w' ↦ Ran w .CONTINUE w' ∧ (r ≠ some .CONTINUE → w'.Stops))
    (fun _ w' ↦ Stretch w.run w'.run ∧ w'.run.Derailed) w

theorem EndsBody.before {x : Executor (Option ExecutorReturn)} {w₁ : World} (h : Ran w .CONTINUE w₁)
    (hx : EndsBody x w₁) :
    wp x (fun r w' ↦ Ran w .CONTINUE w' ∧ (r ≠ some .CONTINUE → w'.Stops))
      (fun _ w' ↦ Stretch w.run w'.run ∧ w'.run.Derailed) w₁ :=
  wp.mono hx (fun _ _ hr ↦ ⟨hr.1.before h, hr.2⟩) fun _ _ hf ↦ ⟨h.toStretch.trans hf.1, hf.2⟩

/-- The body from the initialisation of all plugs on. -/
theorem endsBody_started {t : ℕ} (h : Ready w.run) (hw : w.LastTerminal) (hs : w.run.Waiting t) :
    EndsBody (do
      if ← initializePlugs none then pure none
      else
        onRun setStatusRunning
        let ret ← runPhases env (phaseExecutor env) test.phaseSequence
        pure (some ret)) w := by
  unfold EndsBody
  rw [wp_bind]
  have hwaiting : Within (World.OnRun (Preserves (RunState.Waiting t))) (initializePlugs none) :=
    (writesKept_waiting env t).tree.initializePlugs (waiting_initializePlugTypes t) none
  refine ((initializePlugs_spec none h.toAtRest).and (hwaiting.wp w)).mono ?_
    fun _ _ hf ↦ ⟨hf.1.toStretch, .inl hf.1.fails⟩
  rintro failed w₁ ⟨⟨h₁, -, hlast⟩, hw₁⟩
  rw [wp_ite]
  split
  · rename_i hb
    exact ⟨h₁, fun _ ↦ .inr (.inr (hlast hb))⟩
  · simp only [wp_bind, wp_onRun, wp_pure]
    refine (setStatusRunning_spec (hw₁.run hs)).mono ?_ fun _ _ hf ↦ hf.elim
    intro _ s haside
    have h₂ : Ran w .CONTINUE (w₁.setRun s) := h₁.after (ran_step haside.sync haside.steps rfl)
    refine (runPhases_spec test.phaseSequence (h.along h₂.toStretch (h₂.rest h.toAtRest)) (h₂.terminal hw)).mono
      ?_ ?_
    · intro ret w₃ h₃
      refine ⟨(h₂.trans h₃).continue, fun hret ↦ h₃.reason ?_⟩
      cases ret with
      | CONTINUE => exact absurd rfl hret
      | TERMINAL => rfl
    · exact fun _ w₃ hf ↦ ⟨h₂.toStretch.trans hf.1, hf.2⟩

/-- The part of the body that follows the start phase. -/
theorem endsBody_afterStart (terminal : Bool) (h : Ready w.run) (hw : w.LastTerminal)
    (hs : w.run.Waiting 0) (hterminal : terminal = true → w.lastOutcome.isSome = true) :
    EndsBody (if terminal then pure none
      else do
        onRun markTestStarted
        if ← initializePlugs none then pure none
        else
          onRun setStatusRunning
          let ret ← runPhases env (phaseExecutor env) test.phaseSequence
          pure (some ret)) w := by
  unfold EndsBody
  rw [wp_ite]
  split
  · rename_i ht
    exact ⟨ran_quiet rfl rfl, fun _ ↦ .inr (.inr (hterminal ht))⟩
  · rw [wp_bind, wp_onRun]
    refine (markTestStarted_spec hs).mono ?_ fun _ _ hf ↦ hf.elim
    rintro - s ⟨haside, t, hwaiting⟩
    have hmark : Ran w .CONTINUE (w.setRun s) := ran_step haside.sync haside.steps rfl
    exact (endsBody_started (h.along hmark.toStretch (hmark.rest h.toAtRest)) (hmark.terminal hw)
      hwaiting).before hmark

/-- `_thread_proc` up to its `finally`, from the new `TestState` on. -/
theorem threadBody_spec (hplugs : test.plugTypes.any (·.isPlaceholder) = false) (h : Ready w.run)
    (hw : w.LastTerminal) (hstart : test.testStart.isSome = true → w.run.MayStart) :
    wp (threadBody env (phaseExecutor env) test)
      (fun r w' ↦ Ran w .CONTINUE w' ∧ (r ≠ some .CONTINUE → w'.Stops))
      (fun _ w' ↦ Stretch w.run w'.run ∧ w'.run.Derailed) w := by
  have hcreate : Ran w .CONTINUE (w.withTestState test) := ran_step rfl List.prefix_rfl rfl
  have hshared : Ran (w.withTestState test) .CONTINUE
      ((w.withTestState test).afterShared env Sync.setPhaseExec) :=
    ran_shared (.single (.setPhaseExec _)) (fun _ ↦ rfl) fun _ hr ↦ ⟨hr.thread, hr.lock, hr.quiet⟩
  have hran := hcreate.after hshared
  have hview := Sync.sameView_interfere env.schedule w.run.sync
  have hready := h.along hran.toStretch (hran.rest h.toAtRest)
  have happly : createTestState test w = (.ok (), w.withTestState test) := by
    simp [createTestState, hplugs, World.withTestState]
  unfold threadBody
  rw [wp_bind, wp_eq_of_ok happly, wp_bind, wp_onRun]
  change wp _ _ _ ((w.withTestState test).afterShared env Sync.setPhaseExec)
  generalize hw₁ : (w.withTestState test).afterShared env Sync.setPhaseExec = w₁ at hran hready
  have hwaiting : w₁.run.Waiting 0 := hw₁ ▸ ⟨rfl, rfl⟩
  cases htest : test.testStart with
  | none =>
      rw [wp_bind, wp_pure]
      refine (endsBody_afterStart false hready (hran.terminal hw) hwaiting ?_).before hran
      simp
  | some p =>
      have hmay : w₁.run.MayStart := by
        rw [← hw₁]
        refine (hstart (by simp [htest])).imp (fun hd ↦ ?_) fun hp ↦ hview.startPending.trans hp
        exact hview.depth.symm ▸ hd
      have hkept := (writesKept_waiting env 0).tree.executeTestStart (waiting_initializePlugTypes 0) p
      rw [wp_bind]
      refine ((executeTestStart_spec hready hmay).and (hkept.wp w₁)).mono ?_ ?_
      · rintro terminal w₂ ⟨⟨h₂, hterminal⟩, hwaiting₂⟩
        have h₂ := hran.after h₂
        exact (endsBody_afterStart terminal (h.along h₂.toStretch (h₂.rest h.toAtRest)) (h₂.terminal hw)
          (hwaiting₂.run hwaiting) hterminal).before h₂
      · exact fun _ w₂ hf ↦ ⟨hran.toStretch.trans hf.1.toStretch, .inl hf.1.fails⟩

end Body

/-! ## The whole thread -/

theorem finishKept_stretch (env : Env) : FinishKept env Stretch where
  abortIsSet _ := ⟨Sync.path_interfere _ _, (Sync.sameView_interfere _ _).depth, List.prefix_rfl⟩
  callUser f := (aside_callUser f).weaken fun _ _ h ↦ h.stretch
  finalisation x _ := (aside_noteStep x).weaken fun _ _ h ↦ h.stretch
  testState _ _ := .modify fun _ ↦ .of_sync rfl List.prefix_rfl

theorem stretch_endThread (env : Env) : Within (World.OnRun Stretch) (endThread env) := by
  have hdown : Within Stretch tearDownPlugs := by
    apply within_tearDownPlugs
    · exact fun p ↦ (aside_noteStep _).weaken fun _ _ h ↦ h.stretch
    · exact fun f ↦ (aside_mapPlugManager f).weaken fun _ _ h ↦ h.stretch
  have hfinish : Within (World.OnRun Stretch) (finishTest env) :=
    (finishKept_stretch env).finishTest.weaken fun w w' hstep ↦ by
      obtain ⟨s, hs, rfl⟩ := hstep
      exact ⟨hs, rfl⟩
  have hend : Within (World.OnRun Stretch) (do
      onRun tearDownPlugs
      finishTest env : Executor Unit) := .bind (World.OnRun.onRun hdown) fun _ ↦ hfinish
  have hteardown : Within (World.OnRun Stretch) (executeTestTeardown env) := by
    rw [executeTestTeardown_eq]
    exact .bind .gets fun _ ↦ .ite (fun _ ↦ .bind .raise fun _ ↦ hend) fun _ ↦ hend
  exact .bind hteardown fun _ ↦ .modify fun _ ↦ World.OnRun.of_eq rfl rfl

section Thread

variable (env : Env) (test : Test) (abortCalls : ℕ)

/-- The world in which the `try` of the thread begins. -/
def World.atBody : World := { World.initial test abortCalls with executionFinished := false }

theorem ready_atBody : Ready (World.atBody test abortCalls).run where
  thread := rfl
  lock := rfl
  quiet := rfl
  seen := ⟨nofun, fun h ↦ absurd rfl h, nofun, nofun⟩
  lockInv := rfl

variable {test} in
theorem threadBody_atBody (hplugs : test.plugTypes.any (·.isPlaceholder) = false) :
    EndsBody (threadBody env (phaseExecutor env) test) (World.atBody test abortCalls) := by
  refine threadBody_spec hplugs (ready_atBody test abortCalls) ?_ fun h ↦ ?_
  · exact nofun
  · exact .inr h

theorem final_eq : World.final env test abortCalls =
    (endThread env (threadBody env (phaseExecutor env) test (World.atBody test abortCalls)).2).2 :=
  threadProc_snd _ _ _ _

/-- Every run of a test is a path of steps that the protocol allows. -/
theorem final_stretch :
    Stretch (World.initial test abortCalls).run (World.final env test abortCalls).run := by
  have hbody : Stretch (World.atBody test abortCalls).run
      (threadBody env (phaseExecutor env) test (World.atBody test abortCalls)).2.run := by
    cases hplugs : test.plugTypes.any (·.isPlaceholder) with
    | true =>
        rw [threadBody_of_placeholder hplugs]
        exact .refl _
    | false =>
        have hspec := threadBody_atBody env abortCalls hplugs
        exact wp_same.mp (wp.mono hspec (fun _ _ hr ↦ hr.1.toStretch) fun _ _ hf ↦ hf.1)
  rw [final_eq]
  exact hbody.trans (stretch_endThread env _).run

end Thread

end OpenHtf
