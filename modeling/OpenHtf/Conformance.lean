import OpenHtf.Assignment
import OpenHtf.Finalize
import OpenHtf.PhaseRun

/-!
# The executor thread keeps to the protocol

Every run of the test executor with the real phase executor is a path of steps
of the two threads, as `ThreadStep` allows them.  What the thread is left with
is proved along the way: why it returned TERMINAL, and what an exception that
escapes goes back to.
-/

set_option autoImplicit false

namespace OpenHtf

open Act TestExecutor

/-! ## Stretches of a run -/

/-- Where the executor thread stands between two nodes. -/
structure Ready (s : RunState) : Prop extends AtRest s where
  seen : s.sync.AbortSeen
  lockInv : s.sync.LockInv

/-- What every stretch of a run keeps. -/
structure Stretch (s s' : RunState) : Prop where
  path : Sync.Path s.sync s'.sync
  depth : s'.sync.depth = s.sync.depth
  steps : s.steps <+: s'.steps

theorem Stretch.refl (s : RunState) : Stretch s s := ⟨.refl, rfl, List.prefix_rfl⟩

theorem Stretch.trans {s s₁ s₂ : RunState} (h : Stretch s s₁) (h' : Stretch s₁ s₂) : Stretch s s₂ :=
  ⟨h.path.trans h'.path, h'.depth.trans h.depth, h.steps.trans h'.steps⟩

theorem Along.stretch {s s' : RunState} {thread : Option PhaseThread} {lock : Bool}
    (h : Along s thread lock s') (hs : s.steps <+: s'.steps) : Stretch s s' := ⟨h.path, h.depth, hs⟩

theorem Stretch.of_sync {s s' : RunState} (hsync : s'.sync = s.sync) (hs : s.steps <+: s'.steps) :
    Stretch s s' := ⟨hsync ▸ .refl, hsync ▸ rfl, hs⟩

theorem Ready.along {s s' : RunState} (h : Ready s) (hs : Stretch s s') (hrest : AtRest s') : Ready s' :=
  { hrest with
    seen := hs.path.keeps (fun _ _ ↦ Sync.abortSeen_step) h.seen
    lockInv := hs.path.keeps (fun _ _ ↦ Sync.lockInv_step) h.lockInv }

theorem AtRest.sameView {s : RunState} {i : Sync} (h : AtRest s) (hv : Sync.SameView s.sync i) :
    AtRest { s with sync := i } :=
  ⟨hv.currentPhaseThread.trans h.thread, hv.currentPhaseThreadLock.trans h.lock,
    hv.runningPhaseState h.quiet⟩

/-- What a statement of the phase executor comes to from `s`: it comes to rest with
a value as `Q` says, or it raises and has left a trace of why. -/
def Conducts {α : Type} (Q : α → RunState → Prop) (x : Exec α) (s : RunState) : Prop :=
  wp x (fun a s' ↦ Stretch s s' ∧ AtRest s' ∧ Q a s')
    (fun _ s' ↦ Stretch s s' ∧ s'.sync.currentPhaseThread = none ∧ s'.PhaseFails) s

section Conducts

variable {env : Env} {p : PhaseDescriptor} {rec : Option SubtestRecord} {s : RunState}

theorem conducts_executePhase (h : Ready s) (hstart : s.MayStart) :
    Conducts (OutcomeKnown rec) (executePhase env p rec) s := by
  have hphase : Executes rec (executePhase env p rec) := executePhase_spec
  have hspec := hphase s h.toAtRest h.seen hstart
  refine (hspec.and ((phaseFrame_executePhase env p rec).wp s)).mono ?_ ?_
  · rintro o s' ⟨⟨ha, hrest, hknown⟩, hf⟩
    exact ⟨ha.stretch hf.steps, hrest, hknown⟩
  · rintro e s' ⟨⟨ha, hfail⟩, hf⟩
    exact ⟨ha.stretch hf.steps, ha.thread, hfail⟩

theorem conducts_skipPhase (h : Ready s) : Conducts (fun _ _ ↦ True) (skipPhase env p rec) s := by
  refine wp.mono (Q := fun _ s' ↦ (Along s none false s' ∧ AtRest s') ∧ PhaseFrame s s')
    (E := fun _ s' ↦ (Along s none false s' ∧ s'.PhaseFails) ∧ PhaseFrame s s') ?_ ?_ ?_
  · refine wp.and ?_ ((phaseFrame_skipPhase env p rec).wp s)
    unfold skipPhase
    rw [wp_bind]
    refine (enterPhase_spec h.toAtRest).mono ?_ fun _ _ hf ↦ hf.elim
    rintro - s₁ ⟨h₁, -⟩
    rw [wp_bind, wp_modify]
    refine (leavePhase_spec (h₁.mapPhaseState _) ?_).mono ?_ ?_
    · rfl
    · exact fun _ s₂ ⟨h₂, _, hrest, _⟩ ↦ ⟨h₂, hrest⟩
    · exact fun e s₂ ⟨h₂, _, hu, _⟩ ↦ ⟨h₂, .inl hu⟩
  · exact fun _ s' ⟨⟨ha, hrest⟩, hf⟩ ↦ ⟨ha.stretch hf.steps, hrest, trivial⟩
  · exact fun _ s' ⟨⟨ha, hfail⟩, hf⟩ ↦ ⟨ha.stretch hf.steps, ha.thread, hfail⟩

/-- With `stop_on_first_failure` only the lookup of the last record can fail. -/
theorem conducts_stopOnFirstFailure {o : PhaseExecutionOutcome} (h : Ready s) (ho : OutcomeKnown rec o s) :
    Conducts (OutcomeKnown rec) (stopOnFirstFailure env o) s := by
  simp only [Conducts, stopOnFirstFailure, noteStep, wp_ite, wp_bind, wp_gets, wp_modify, wp_pure]
  have hstep (b : Bool) : Stretch s (s.addStep (.lastPhaseRecord b)) :=
    .of_sync rfl (List.prefix_append _ _)
  split
  · cases hl : s.testRecord.phases.getLast? with
    | none =>
        refine ⟨hstep _, h.thread, .inr ?_⟩
        have hnil : s.testRecord.phases = [] := List.getLast?_eq_none_iff.mp hl
        simp [RunState.NoRecord, RunState.addStep, hnil]
    | some last =>
        refine ⟨hstep _, h.toAtRest.of_sync rfl, ?_⟩
        split
        · exact ⟨by simp, by simp⟩
        · exact ho.mono id (List.prefix_append _ _)
  · exact ⟨.refl s, h.toAtRest, ho⟩

/-- The execution of a phase as `_execute_phase` calls for it. -/
theorem conducts_runPhase (h : Ready s) (hstart : s.MayStart) :
    Conducts (OutcomeKnown rec) (do
      let o ← executePhase env p rec
      noteThread (Sync.setStartPending false)
      stopOnFirstFailure env o) s := by
  unfold Conducts
  rw [wp_bind]
  refine (conducts_executePhase h hstart).mono ?_ fun _ _ hr ↦ hr
  rintro o s₁ ⟨hs₁, hrest₁, hknown⟩
  rw [wp_bind, noteThread, wp_modify]
  have hs₂ : Stretch s (s₁.mapSync (Sync.setStartPending false)) :=
    ⟨hs₁.path.tail (.setPending _ _ (by simp)), hs₁.depth, hs₁.steps⟩
  have hrest₂ : AtRest (s₁.mapSync (Sync.setStartPending false)) :=
    ⟨hrest₁.thread, hrest₁.lock, hrest₁.quiet⟩
  have hknown₂ : OutcomeKnown rec o (s₁.mapSync (Sync.setStartPending false)) :=
    hknown.mono id List.prefix_rfl
  refine (conducts_stopOnFirstFailure (h.along hs₂ hrest₂) hknown₂).mono ?_ ?_
  · rintro o' s₃ ⟨hs₃, hrest₃, hknown₃⟩
    exact ⟨hs₂.trans hs₃, hrest₃, hknown₃⟩
  · rintro e s₃ ⟨hs₃, hthread, hfail⟩
    exact ⟨hs₂.trans hs₃, hthread, hfail⟩

/-- Checkpoints share nothing and raise nothing. -/
theorem evaluateCheckpoint_spec {c : Checkpoint} :
    wp (evaluateCheckpoint c rec)
      (fun o s' ↦ s'.sync = s.sync ∧ s.steps <+: s'.steps ∧ (o = .result .FAIL_SUBTEST → rec.isSome = true))
      (fun _ _ ↦ False) s := by
  simp only [evaluateCheckpoint, timeMillis, noteStep, wp_bind, wp_callUser, wp_modify,
    wp_exceptException]
  refine wp.mono (Q := fun r s' ↦ s'.sync = s.sync ∧ s.steps <+: s'.steps)
    (E := fun e s' ↦ e.isException = true ∧ s'.sync = s.sync ∧ s.steps <+: s'.steps) ?_ ?_ ?_
  · simp only [Checkpoint.getResult, wp_bind, wp_gets]
    cases c.conditional with
    | inl previous =>
        simp only [wp_bind, wp_ite, wp_raise, wp_pure]
        split
        · exact ⟨PyExc.isException_ofClass _ _, rfl, List.prefix_append _ _⟩
        · exact ⟨rfl, List.prefix_append _ _⟩
    | inr condition => exact ⟨rfl, List.prefix_append _ _⟩
  · rintro r s' ⟨hsync, hsteps⟩
    simp only [wp_ite, wp_bind, wp_raise, wp_pure, PyExc.isException_ofClass, if_true]
    split
    · exact ⟨hsync, hsteps, by simp⟩
    · rename_i hr
      refine ⟨hsync, hsteps, fun ho ↦ ?_⟩
      obtain rfl : r = .FAIL_SUBTEST := PhaseExecutionOutcome.result.inj ho
      cases rec <;> simp_all
  · rintro e s' ⟨he, hsync, hsteps⟩
    rw [if_pos he]
    exact ⟨hsync, hsteps, by simp⟩

end Conducts

/-! ## What a part of the tree comes to -/

theorem RunState.PhaseFails.mono {s s' : RunState} (h : s.PhaseFails) (hs : s.steps <+: s'.steps) :
    s'.PhaseFails := h.imp (fun hu ↦ Untamed.mono hu hs) fun hn ↦ hs.subset hn

/-- Something is known that makes the executor stop. -/
def World.Stops (w : World) : Prop :=
  w.run.sync.abort = true ∨ .unhandledNode ∈ w.run.steps ∨ w.lastOutcome.isSome = true

/-- A part of the tree was executed and returned. -/
structure Ran (w : World) (r : ExecutorReturn) (w' : World) : Prop extends Stretch w.run w'.run where
  rest : AtRest w.run → AtRest w'.run
  lastOutcome : w.lastOutcome.isSome = true → w'.lastOutcome.isSome = true
  terminal : w.LastTerminal → w'.LastTerminal
  reason : r = .TERMINAL → w'.Stops

/-- An exception escaped from the execution of a part of the tree. -/
structure Failed (w w' : World) : Prop extends Stretch w.run w'.run where
  thread : w'.run.sync.currentPhaseThread = none
  fails : w'.run.PhaseFails

section Ran

variable {w w' w₁ w₂ : World} {r r' : ExecutorReturn}

theorem World.Stops.mono (h : w.Stops) (hr : Ran w r w') : w'.Stops :=
  h.imp (hr.path.keeps fun _ _ ↦ Sync.abort_step) fun h ↦ h.imp (fun hn ↦ hr.steps.subset hn) hr.lastOutcome

theorem Ran.trans (h : Ran w r w₁) (h' : Ran w₁ r' w₂) : Ran w (moreCritical r r') w₂ where
  toStretch := h.toStretch.trans h'.toStretch
  rest := h'.rest ∘ h.rest
  lastOutcome := h'.lastOutcome ∘ h.lastOutcome
  terminal := h'.terminal ∘ h.terminal
  reason hr := by
    cases r with
    | CONTINUE => exact h'.reason hr
    | TERMINAL => exact (h.reason rfl).mono h'

theorem Ran.before (h : Ran w₁ r w') (hw : Ran w .CONTINUE w₁) : Ran w r w' := hw.trans h

theorem Ran.after (h : Ran w r w₁) (hw : Ran w₁ .CONTINUE w') : Ran w r w' :=
  moreCritical_continue_right r ▸ h.trans hw

/-- Why it returned is forgotten. -/
theorem Ran.continue (h : Ran w r w') : Ran w .CONTINUE w' :=
  ⟨h.toStretch, h.rest, h.lastOutcome, h.terminal, nofun⟩

/-- A step of the executor thread on which nothing turns. -/
theorem ran_step (hsync : w'.run.sync = w.run.sync) (hsteps : w.run.steps <+: w'.run.steps)
    (hlast : w'.lastOutcome = w.lastOutcome) : Ran w .CONTINUE w' where
  toStretch := .of_sync hsync hsteps
  rest h := h.of_sync hsync
  lastOutcome h := hlast ▸ h
  terminal h := fun o ho ↦ h o (hlast ▸ ho)
  reason := nofun

theorem ran_quiet (hrun : w'.run = w.run) (hlast : w'.lastOutcome = w.lastOutcome) :
    Ran w .CONTINUE w' :=
  ran_step (congrArg RunState.sync hrun) (hrun ▸ List.prefix_rfl) hlast

theorem ran_setCallstack (c : List Frame) : Ran w .CONTINUE (w.setCallstack c) := ran_quiet rfl rfl

theorem ran_addEvent (e : Event) : Ran w .CONTINUE (w.addEvent e) := ran_quiet rfl rfl

/-- An operation on the shared state that leaves the executor thread where it stands. -/
theorem ran_shared {α : Type} {env : Env} {op : Sync → α × Sync}
    (hpath : Sync.Path (w.run.sync.interfere env.schedule) (op (w.run.sync.interfere env.schedule)).2)
    (hdepth : ∀ i : Sync, (op i).2.depth = i.depth)
    (hrest : ∀ i, AtRest { w.run with sync := i } → AtRest { w.run with sync := (op i).2 }) :
    Ran w .CONTINUE (w.afterShared env op) := by
  have hview := Sync.sameView_interfere env.schedule w.run.sync
  exact ⟨⟨(Sync.path_interfere _ _).trans hpath, (hdepth _).trans hview.depth, List.prefix_rfl⟩,
    fun h ↦ hrest _ (h.sameView hview), id, id, nofun⟩

theorem Ran.stop (h : Ran w .CONTINUE w') (hs : w'.Stops) : Ran w .TERMINAL w' :=
  ⟨h.toStretch, h.rest, h.lastOutcome, h.terminal, fun _ ↦ hs⟩

theorem Ran.fail (h : Ran w r w₁) (hf : Failed w₁ w₂) : Failed w w₂ :=
  ⟨h.toStretch.trans hf.toStretch, hf.thread, hf.fails⟩

theorem Failed.before (h : Failed w₁ w') (hw : Ran w .CONTINUE w₁) : Failed w w' := hw.fail h

/-- What comes after an exception shares nothing. -/
theorem Failed.after (h : Failed w w₁) (hsync : w₂.run.sync = w₁.run.sync)
    (hsteps : w₁.run.steps <+: w₂.run.steps) : Failed w w₂ :=
  ⟨h.toStretch.trans (.of_sync hsync hsteps), hsync ▸ h.thread, h.fails.mono hsteps⟩

theorem Failed.setCallstack (h : Failed w w') (c : List Frame) : Failed w (w'.setCallstack c) :=
  h.after rfl List.prefix_rfl

theorem Failed.addEvent (h : Failed w w') (e : Event) : Failed w (w'.addEvent e) :=
  h.after rfl List.prefix_rfl

end Ran

/-- Where the executor thread stands when a node is executed; `starts` tells
whether the node is begun without a look at `_abort`. -/
structure Begins (starts inTeardown : Bool) (s : RunState) : Prop extends Ready s where
  locked : inTeardown = true → 0 < s.sync.depth
  start : starts = true → s.MayStart

theorem Begins.along {td : Bool} {s s' : RunState} (h : Begins false td s) (hs : Stretch s s')
    (hrest : AtRest s') : Begins false td s' :=
  { h.toReady.along hs hrest with
    locked := fun htd ↦ hs.depth ▸ h.locked htd
    start := nofun }

def conformance : TreeSpec where
  valid _ := True
  node n _ td w := Begins n.isPhaseOrGroup td w.run
  loop _ td w := Begins false td w.run
  sequence _ _ _ w := Ready w.run
  returns _ w r w' := Ran w r w'
  raises _ w w' := Failed w w'

/-! ## The tree -/

section Tree

variable {env : Env} {rec : Option ℕ}

theorem conforms_visiting {P : RunState → Prop} {n : PhaseNode} {td : Bool}
    {x : Executor ExecutorReturn}
    (h : ∀ w, w.Knows rec → P w.run → wp x (Ran w) (fun _ ↦ Failed w) w) :
    conformance.Holds (fun w ↦ P w.run) rec (visiting n td x) := by
  intro w hw hp
  simp only [wp_visiting]
  have hvisit : Ran w .CONTINUE ((w.addEvent (.visited w.callstack n td)).setCallstack
      (.node td :: w.callstack)) := ran_quiet rfl rfl
  refine wp.mono (h _ ?_ ?_) (fun r w' hr ↦ ?_) fun e w' hf ↦ ?_
  · exact hw
  · exact hp
  · exact (hr.after (ran_setCallstack _)).before hvisit
  · exact (hf.setCallstack _).before hvisit

theorem conforms_reaching {P : RunState → Prop} {s : PhaseSequence} {td : Bool}
    {x : Executor ExecutorReturn}
    (h : ∀ w, w.Knows rec → P w.run → wp x (Ran w) (fun _ ↦ Failed w) w) :
    conformance.Holds (fun w ↦ P w.run) rec (reaching s rec td x) := by
  intro w hw hp
  simp only [wp_reaching]
  have hreach : Ran w .CONTINUE (w.addEvent (.reached s td (w.subtestFails rec))) := ran_addEvent _
  refine wp.mono (h _ ?_ ?_) (fun r w' hr ↦ ?_) fun e w' hf ↦ ?_
  · exact hw
  · exact hp
  · exact (hr.after (ran_addEvent _)).before hreach
  · exact (hf.addEvent _).before hreach

/-- Consequences are drawn from an outcome of which something is known. -/
theorem ran_concluded {o : PhaseExecutionOutcome} {unit : String} {w : World} :
    Ran w o.executorReturn (w.concluded o unit rec) := by
  have hrun : (w.concluded o unit rec).run = w.run := w.concluded_run o unit rec
  have hlast := w.concluded_lastOutcome o unit rec
  refine ⟨.of_sync (congrArg RunState.sync hrun) (hrun ▸ List.prefix_rfl), fun h ↦ hrun ▸ h, ?_, ?_, ?_⟩
  · intro hsome
    cases ho : o.isTerminal <;> cases hl : w.lastOutcome <;> simp_all
  · intro h o' ho'
    rw [hlast] at ho'
    cases ho : o.isTerminal with
    | false => exact h o' (by simpa [ho] using ho')
    | true =>
        rw [ho, if_pos rfl] at ho'
        cases hl : w.lastOutcome with
        | none =>
            obtain rfl : o = o' := by simpa [hl] using ho'
            exact ho
        | some o₁ => exact h o' (by simpa [hl] using ho')
  · intro hr
    have ho : o.isTerminal = true := by
      cases ho : o.isTerminal <;> simp_all [PhaseExecutionOutcome.executorReturn]
    refine .inr (.inr ?_)
    rw [hlast, ho, if_pos rfl]
    cases w.lastOutcome <;> rfl

theorem conforms_leaf {n : PhaseNode} {unit : String} {records : TestRecord → ℕ}
    {skip : Option SubtestRecord → Exec Unit}
    {run : Option SubtestRecord → Exec PhaseExecutionOutcome} {starts td : Bool}
    (hskip : ∀ r s, Ready s → Conducts (fun _ _ ↦ True) (skip r) s)
    (hrun : ∀ r s, Begins starts td s →
      Conducts (fun o _ ↦ o = .result .FAIL_SUBTEST → r.isSome = true) (run r) s) :
    conformance.Holds (fun w ↦ Begins starts td w.run) rec
      (visiting n td (executeLeaf n unit records skip run rec td)) := by
  refine conforms_visiting (P := Begins starts td) fun w hw h ↦ ?_
  simp only [executeLeaf, subtestRecord, autoSkips, wp_bind, wp_gets, wp_ite, wp_onRun, wp_noteEvent,
    noteThread, wp_modify, wp_pure, World.setRun_callstack, World.setRun_setRun]
  have hrunState (s : RunState) (hs : Stretch w.run s) (hrest : AtRest s) : Ran w .CONTINUE (w.setRun s) :=
    ⟨hs, fun _ ↦ hrest, id, id, by simp⟩
  split
  · have hs : Stretch w.run (w.run.mapSync (Sync.setStartPending false)) :=
      ⟨.single (.setPending _ _ (by simp)), rfl, List.prefix_rfl⟩
    have hready := h.toReady.along hs ⟨h.thread, h.lock, h.quiet⟩
    refine (hskip _ _ hready).mono ?_ ?_
    · rintro _ s' ⟨hs', hrest', _⟩
      exact (hrunState s' (hs.trans hs') hrest').after (ran_quiet rfl rfl)
    · rintro _ s' ⟨hs', hthread, hfail⟩
      exact ⟨hs.trans hs', hthread, hfail⟩
  · refine (hrun _ _ h).mono ?_ ?_
    · rintro o s ⟨hs, hrest, hknown⟩
      rw [wp, conclude_apply fun ho ↦ by simpa using hknown ho]
      have hended : Ran w .CONTINUE (((w.addEvent (.executing w.callstack n td)).setRun s).addEvent
          (.ended w.callstack n td o)) := ⟨hs, fun _ ↦ hrest, id, id, by simp⟩
      exact ran_concluded.before hended
    · rintro _ s ⟨hs, hthread, hfail⟩
      exact ⟨hs, hthread, hfail⟩

/-- `_teardown_phases_lock` is acquired. -/
theorem ready_acquire (env : Env) {w : World} (h : Ready w.run) :
    let w' := w.afterShared env Sync.acquireTeardownPhasesLock
    Sync.Path w.run.sync w'.run.sync ∧ w'.run.sync.depth = w.run.sync.depth + 1 ∧ Ready w'.run := by
  let i := w.run.sync.interfere env.schedule
  let t := runUntil Sync.aborterOutside Sync.abortStep 6 i
  have hview : Sync.SameView w.run.sync i := Sync.sameView_interfere _ _
  have hpath : Sync.Path w.run.sync i := Sync.path_interfere _ _
  obtain ⟨hpath', hview'⟩ : Sync.Path i t ∧ Sync.SameView i t :=
    runUntil_keeps (I := fun s ↦ Sync.Path i s ∧ Sync.SameView i s)
      (fun s hs ↦ ⟨hs.1.tail (.abort s), IsTrans.trans _ _ _ hs.2 (Sync.sameView_abortStep s)⟩) 6
      ⟨.refl, Std.Refl.refl i⟩
  have hview := IsTrans.trans _ _ _ hview hview'
  have hpath := hpath.trans hpath'
  have hout : t.aborterOutside = true := by
    refine Sync.aborterOutside_wait ?_ ?_
    · exact (Sync.path_interfere _ _).keeps (fun _ _ ↦ Sync.lockInv_step) h.lockInv
    · exact (Sync.sameView_interfere env.schedule w.run.sync).currentPhaseThreadLock.trans h.lock
  have hthread : t.currentPhaseThread = none := hview.currentPhaseThread.trans h.thread
  have hpath := hpath.tail (.enterTeardown t hout hthread)
  refine ⟨hpath, (Sync.depth_takeTeardownPhasesLock hout).trans (congrArg (· + 1) hview.depth), ?_, ?_, ?_⟩
  · exact ⟨hthread, hview.currentPhaseThreadLock.trans h.lock, hview.runningPhaseState h.quiet⟩
  · exact Sync.Path.keeps (fun _ _ ↦ Sync.abortSeen_step) hpath h.seen
  · exact Sync.Path.keeps (fun _ _ ↦ Sync.lockInv_step) hpath h.lockInv

/-- It is released by an executor thread that runs no phase. -/
theorem path_release (env : Env) {w : World} (h : w.run.sync.currentPhaseThread = none) :
    let w' := w.afterShared env Sync.releaseTeardownPhasesLock
    Sync.Path w.run.sync w'.run.sync ∧ w'.run.sync.depth = w.run.sync.depth - 1 ∧
      (AtRest w.run → AtRest w'.run) := by
  have hview := Sync.sameView_interfere env.schedule w.run.sync
  refine ⟨(Sync.path_interfere _ _).tail (.leaveTeardown _ ?_), ?_, fun hr ↦ ?_⟩
  · exact hview.currentPhaseThread.trans h
  · exact (Sync.depth_releaseTeardownPhasesLock _).trans (congrArg (· - 1) hview.depth)
  · have hrest := hr.sameView hview
    exact ⟨hrest.thread, hrest.lock, hrest.quiet⟩

/-- A part of the tree that is executed inside the lock. -/
theorem conforms_locked {x : Executor ExecutorReturn}
    (h : ∀ w, w.Knows rec → Begins false true w.run → wp x (Ran w) (fun _ ↦ Failed w) w) {w : World}
    (hw : w.Knows rec) (hready : Ready w.run) :
    wp (withTeardownPhasesLock env x) (Ran w) (fun _ ↦ Failed w) w := by
  obtain ⟨hpath, hdepth, hready'⟩ := ready_acquire env hready
  have hbegins : Begins false true (w.afterShared env Sync.acquireTeardownPhasesLock).run :=
    { hready' with
      locked := fun _ ↦ hdepth ▸ Nat.succ_pos _
      start := nofun }
  simp only [wp_withTeardownPhasesLock]
  refine wp.mono (h _ hw hbegins) (fun r w₁ hr ↦ ?_) fun e w₁ hf ↦ ?_
  · obtain ⟨hpath', hdepth', hrest'⟩ := path_release env (hr.rest hready'.toAtRest).thread
    refine ⟨⟨hpath.trans (hr.path.trans hpath'), ?_, hr.steps⟩, fun _ ↦ hrest' (hr.rest hready'.toAtRest),
      hr.lastOutcome, hr.terminal, fun hret ↦ ?_⟩
    · rw [hdepth', hr.depth, hdepth, Nat.add_sub_cancel]
    · exact (hr.reason hret).imp (hpath'.keeps fun _ _ ↦ Sync.abort_step) id
  · obtain ⟨hpath', hdepth', -⟩ := path_release env hf.thread
    refine ⟨⟨hpath.trans (hf.path.trans hpath'), ?_, hf.steps⟩, ?_, hf.fails⟩
    · rw [hdepth', hf.depth, hdepth, Nat.add_sub_cancel]
    · exact (Sync.sameView_interfere _ _).currentPhaseThread.trans hf.thread

/-- `_execute_node` of a sequence, from where it is reached. -/
theorem conforms_executeSequenceNode {s : PhaseSequence} {td : Bool}
    {sequence : Option ℕ → Executor ExecutorReturn}
    (hseq : ∀ rec w, w.Knows rec → Ready w.run → wp (sequence rec) (Ran w) (fun _ ↦ Failed w) w)
    {w : World} (hw : w.Knows rec) (h : Ready w.run) :
    wp (executeSequenceNode s rec td sequence) (Ran w) (fun _ ↦ Failed w) w := by
  unfold executeSequenceNode
  cases s.kind with
  | plain => exact hseq rec w hw h
  | subtest =>
      dsimp only
      rw [wp_executeSubtest hw]
      have hbegin : Ran w .CONTINUE ((w.beginSubtest s (w.subtestFails rec)).setCallstack
          (.subtest w.subtestsMade :: w.callstack)) := ran_step rfl List.prefix_rfl rfl
      have hend (w' : World) (i : ℕ) (b : Bool) (ret : ExecutorReturn) :
          Ran w' .CONTINUE (w'.endSubtest i b ret) := ran_step rfl (List.prefix_append _ _) rfl
      refine wp.mono (hseq _ _ knows_beginSubtest ?_) (fun ret w' hr ↦ ?_) fun e w' hf ↦ ?_
      · exact h.along hbegin.toStretch (hbegin.rest h.toAtRest)
      · exact ((hr.after (ran_setCallstack _)).after (hend _ _ _ _)).before hbegin
      · exact (hf.setCallstack _).before hbegin
  | branch c =>
      have hevaluating : Ran w .CONTINUE (w.evaluating s td) :=
        ran_step rfl (List.prefix_append _ _) rfl
      have hbranch (w' : World) (taken : Bool) :
          Ran w' .CONTINUE (w'.addBranch s c taken w.run.moment) := ran_step rfl List.prefix_rfl rfl
      simp only [wp_executePhaseBranch]
      split_ifs
      · exact ran_quiet rfl rfl
      · have hbody := hevaluating.after (ran_setCallstack
          (.branch c w.run.testState.diagnosesStore :: w.callstack))
        refine wp.mono (hseq rec _ ?_ ?_) (fun ret w' hr ↦ ?_) fun e w' hf ↦ ?_
        · exact hw
        · exact h.along hbody.toStretch (hbody.rest h.toAtRest)
        · exact ((hr.after (ran_setCallstack _)).after (hbranch _ _)).before hbody
        · have hlost : Failed _ w'.loseBranch := hf.after rfl (List.prefix_append _ _)
          exact (hlost.setCallstack _).before hbody
      · exact hevaluating.after (hbranch _ _)

theorem conforms_executePhaseGroup {setup main teardown : Option PhaseSequence} {name : Option String}
    {td : Bool}
    (hpart : ∀ o, o = setup ∨ o = main ∨ o = teardown → ∀ td',
      conformance.Meets (fun w ↦ Ready w.run) rec (executePart env (phaseExecutor env) o rec td'))
    {w : World} (hw : w.Knows rec) (h : Ready w.run) :
    wp (executePhaseGroup (.mk setup main teardown name) rec td
      (executePart env (phaseExecutor env) setup rec td) (executePart env (phaseExecutor env) main rec td)
      (executePart env (phaseExecutor env) teardown rec)) (Ran w) (fun _ ↦ Failed w) w := by
  simp only [wp_executePhaseGroup]
  refine (hpart setup (.inl rfl) td w hw h).mono ?_ fun _ _ hf ↦ hf.2
  rintro r w₁ ⟨hf₁, h₁⟩
  split_ifs with hr
  · exact h₁
  obtain rfl : r = .CONTINUE := not_not.mp hr
  have hmain := h₁.after (ran_addEvent (.groupMain w₁.callstack (.mk setup main teardown name) td
    (w₁.subtestFails rec)))
  refine (hpart main (.inr (.inl rfl)) td _ ?_ ?_).mono ?_ fun _ _ hf ↦ hf.2.before hmain
  · exact hf₁.knows hw
  · exact h.along hmain.toStretch (hmain.rest h.toAtRest)
  rintro r' w₂ ⟨hf₂, h₂⟩
  have hteardown := (h₂.before hmain).after (ran_addEvent (.groupTeardown w₂.callstack
    (.mk setup main teardown name) (!w.skipsTeardown (.mk setup main teardown name) rec w₁)))
  refine (hpart teardown (.inr (.inr rfl)) _ _ ?_ ?_).mono ?_ fun _ _ hf ↦ hteardown.fail hf.2
  · exact hf₂.knows (hf₁.knows hw)
  · exact h.along hteardown.toStretch (hteardown.rest h.toAtRest)
  · exact fun r'' w₃ ⟨hf₃, h₃⟩ ↦ (hteardown.trans h₃).after (ran_addEvent _)

theorem conformance_sound : conformance.Sound env (phaseExecutor env) where
  none := ran_quiet rfl rfl
  andThen _ _ h h' := h.trans h'
  andRaise _ _ h hf := h.fail hf
  loop _ _ h hr := h.along hr.toStretch (hr.rest h.toAtRest)
  phase p rec td _ := conforms_leaf
    (fun r s h ↦ conducts_skipPhase h)
    fun r s h ↦ (conducts_runPhase h.toReady (h.start rfl)).mono
      (fun o s' hr ↦ ⟨hr.1, hr.2.1, hr.2.2.1⟩) fun _ _ hf ↦ hf
  checkpoint c rec td _ := conforms_leaf
    (fun r s h ↦ ⟨.of_sync rfl (List.prefix_append _ _), h.toAtRest.of_sync rfl, trivial⟩)
    fun r s h ↦ evaluateCheckpoint_spec.mono
      (fun o s' hr ↦ ⟨.of_sync hr.1 hr.2.1, h.toAtRest.of_sync hr.1, hr.2.2⟩)
      fun _ _ hf ↦ hf.elim
  unhandled rec td _ := conforms_visiting fun w hw h ↦ by
    simp only [noteStep, wp_bind, wp_onRun, wp_modify, wp_pure]
    have hmet : Ran w .CONTINUE (w.setRun (w.run.addStep .unhandledNode)) :=
      ran_step rfl (List.prefix_append _ _) rfl
    exact hmet.stop (.inr (.inl (List.mem_append_right _ (List.mem_singleton_self _))))
  sequenceNode s rec td _ hseq := conforms_visiting fun w hw h ↦
    conforms_reaching (P := Ready)
      (fun w hw h ↦ conforms_executeSequenceNode
        (fun rec w hw h ↦ (hseq rec w hw h).mono (fun _ _ hr ↦ hr.2) fun _ _ hf ↦ hf.2) hw h)
      w hw h.toReady
  part s rec td _ hseq := conforms_reaching (P := Ready) fun w hw h ↦
    (hseq w hw h).mono (fun _ _ hr ↦ hr.2) fun _ _ hf ↦ hf.2
  group g rec td _ hpart := by
    obtain ⟨setup, main, teardown, name⟩ := g
    refine conforms_visiting fun w hw h ↦ ?_
    have hview := Sync.sameView_interfere env.schedule w.run.sync
    have henter : Ran w .CONTINUE (w.afterShared env Sync.enterGroup) := by
      refine ran_shared (.single (.enterGroup _ ?_)) (fun _ ↦ rfl) fun i hr ↦ ⟨hr.thread, hr.lock, hr.quiet⟩
      exact (h.start rfl).imp (fun hd ↦ hview.depth.symm ▸ hd) fun hp ↦ hview.startPending.trans hp
    simp only [wp_enteringGroup]
    refine (conforms_executePhaseGroup (w := w.afterShared env Sync.enterGroup) ?_ ?_ ?_).mono ?_ ?_
    · exact fun o ho td' w hw h ↦ hpart o ho td' w hw fun _ _ ↦ h
    · exact hw
    · exact h.toReady.along henter.toStretch (henter.rest h.toAtRest)
    · exact fun _ _ hr ↦ hr.before henter
    · exact fun _ _ hf ↦ hf.before henter
  abortable s rec h := by
    intro w hw hready
    simp only [wp_within]
    have henter := ran_setCallstack (w := w) (.sequence s :: w.callstack)
    refine wp.mono (h _ ?_ ?_) (fun r w' hr ↦ ?_) fun e w' hf ↦ ?_
    · exact hw
    · exact { (hready : Ready w.run) with
        locked := by simp
        start := by simp }
    · exact (hr.2.after (ran_setCallstack _)).before henter
    · exact (hf.2.setCallstack _).before henter
  teardown s rec h := by
    intro w hw hready
    simp only [wp_within]
    have henter := ran_setCallstack (w := w) (.sequence s :: w.callstack)
    refine wp.mono (conforms_locked (w := w.setCallstack (.sequence s :: w.callstack)) ?_ hw hready)
      (fun r w' hr ↦ ?_) fun e w' hf ↦ ?_
    · exact fun w hw hb ↦ (h w hw hb).mono (fun _ _ hr ↦ hr.2) fun _ _ hf ↦ hf.2
    · exact (hr.after (ran_setCallstack _)).before henter
    · exact (hf.setCallstack _).before henter
  aborted _ _ ha := (ran_shared .refl (fun _ ↦ rfl) fun _ hr ↦ hr).stop (.inl ha)
  notAborted {n _ w} _ h ha := by
    have hpending : Ran w .CONTINUE (w.afterShared env fun s ↦ ((), s.setStartPending n.isPhaseOrGroup)) :=
      ran_shared (.single (.setPending _ _ fun _ ↦ ha)) (fun _ ↦ rfl) fun i hr ↦ ⟨hr.thread, hr.lock, hr.quiet⟩
    exact ⟨hpending, { h.toReady.along hpending.toStretch (hpending.rest h.toAtRest) with
      locked := by simp
      start := .inr }⟩
  fullAborted {_ w} _ h ha := by
    have hread : Ran w .CONTINUE (w.afterShared env Sync.fullAbortIsSet) :=
      ran_shared .refl (fun _ ↦ rfl) fun _ hr ↦ hr
    exact hread.stop (.inl ((h.toReady.along hread.toStretch (hread.rest h.toAtRest)).seen.full ha))
  notFullAborted {n _ w} _ h _ := by
    have hread : Ran w .CONTINUE (w.afterShared env Sync.fullAbortIsSet) :=
      ran_shared .refl (fun _ ↦ rfl) fun _ hr ↦ hr
    have hdepth : 0 < (w.afterShared env Sync.fullAbortIsSet).run.sync.depth :=
      hread.depth ▸ h.locked rfl
    exact ⟨hread, { h.toReady.along hread.toStretch (hread.rest h.toAtRest) with
      locked := fun _ ↦ hdepth
      start := fun _ ↦ .inl hdepth }⟩

/-- `_execute_node` on the phase sequence of a test. -/
theorem executeNode_ran (s : PhaseSequence) {w : World} (h : Ready w.run) :
    wp (executeNode env (phaseExecutor env) (.sequence s) none false) (Ran w) (fun _ ↦ Failed w) w := by
  have hsound : conformance.Sound env (phaseExecutor env) := conformance_sound
  refine hsound.tree.1 (.sequence s) (fun _ _ ↦ trivial) none false w ?_ ?_
  · exact nofun
  · exact { h with
      locked := nofun
      start := nofun }

end Tree

end OpenHtf
