import OpenHtf.Assignment
import OpenHtf.Finalize

/-!
# The first terminal outcome

When nobody aborts, a node returns TERMINAL exactly when a leaf below it had a
terminal outcome, and the last outcome of the test executor is the first of
these in the order of execution.  The test is finalised from it, except from a
`ThreadTerminationError` when there are `failure_exceptions`.
-/

set_option autoImplicit false

namespace OpenHtf

open Act TestExecutor

/-- The outcome of a leaf, if it is terminal. -/
def Event.terminalOutcome : Event → Option PhaseExecutionOutcome
  | .ended _ _ _ o => if o.isTerminal then some o else none
  | _ => none

namespace World

/-- The terminal outcomes of leaves so far, in the order of execution. -/
def terminalOutcomes (w : World) : List PhaseExecutionOutcome :=
  w.events.filterMap Event.terminalOutcome

@[simp] theorem terminalOutcomes_addEvent (w : World) (e : Event) :
    (w.addEvent e).terminalOutcomes = w.terminalOutcomes ++ e.terminalOutcome.toList := by
  cases h : e.terminalOutcome <;> simp [terminalOutcomes, h]

@[simp] theorem terminalOutcomes_setRun (w : World) (s : RunState) :
    (w.setRun s).terminalOutcomes = w.terminalOutcomes := rfl

@[simp] theorem terminalOutcomes_setCallstack (w : World) (c : List Frame) :
    (w.setCallstack c).terminalOutcomes = w.terminalOutcomes := rfl

theorem terminalOutcomes_concluded (o : PhaseExecutionOutcome) (unit : String) (rec : Option ℕ)
    (w : World) : (w.concluded o unit rec).terminalOutcomes = w.terminalOutcomes := by
  unfold World.concluded
  cases rec <;> split_ifs <;>
    first | rfl | simp [World.setSubtestOutcome, Event.terminalOutcome, terminalOutcomes]

end World

/-- What the execution of a node comes to when outcomes are assigned. -/
structure Ends (w : World) (r : ExecutorReturn) (w' : World) : Prop where
  sync : w.run.sync.NoAbort → w'.run.sync.NoAbort
  status : w'.run.testState.status = w.run.testState.status
  outcome : w'.run.testRecord.outcome = w.run.testRecord.outcome
  outcomes : ∃ l, w'.terminalOutcomes = w.terminalOutcomes ++ l ∧
    w'.lastOutcome = w.lastOutcome.or l.head? ∧ (r = .TERMINAL ↔ l ≠ [])

section Ends

variable {rec : Option ℕ} {w w' w₁ w₂ : World} {r r' : ExecutorReturn}

/-- A step that ends no leaf. -/
theorem ends_continue (hs : w.run.sync.NoAbort → w'.run.sync.NoAbort)
    (hstatus : w'.run.testState.status = w.run.testState.status)
    (hout : w'.run.testRecord.outcome = w.run.testRecord.outcome)
    (ht : w'.terminalOutcomes = w.terminalOutcomes) (hl : w'.lastOutcome = w.lastOutcome) :
    Ends w .CONTINUE w' := by
  refine ⟨hs, hstatus, hout, [], ?_, ?_, ?_⟩
  · rw [ht, List.append_nil]
  · rw [hl, List.head?_nil, Option.or_none]
  · simp

theorem Ends.trans (h : Ends w r w₁) (h' : Ends w₁ r' w₂) :
    Ends w (moreCritical r r') w₂ := by
  obtain ⟨hs, hstatus, hout, l, ht, hl, hr⟩ := h
  obtain ⟨hs', hstatus', hout', l', ht', hl', hr'⟩ := h'
  refine ⟨hs' ∘ hs, hstatus'.trans hstatus, hout'.trans hout, l ++ l', ?_, ?_, ?_⟩
  · rw [ht', ht, List.append_assoc]
  · rw [hl', hl, Option.or_assoc, List.head?_append]
  · cases r with
    | CONTINUE =>
        have hnil : l = [] := by simpa using hr
        rw [moreCritical, hr', hnil, List.nil_append]
    | TERMINAL =>
        have hne : l ≠ [] := hr.mp rfl
        exact iff_of_true rfl (List.append_ne_nil_of_left_ne_nil hne l')

/-- Steps that end no leaf may come before. -/
theorem Ends.before (h : Ends w₁ r w') (hw : Ends w .CONTINUE w₁) : Ends w r w' :=
  hw.trans h

/-- Steps that end no leaf may come after. -/
theorem Ends.after (h : Ends w r w₁) (hw : Ends w₁ .CONTINUE w') : Ends w r w' :=
  moreCritical_continue_right r ▸ h.trans hw

theorem ends_setCallstack (c : List Frame) : Ends w .CONTINUE (w.setCallstack c) :=
  ends_continue id rfl rfl rfl rfl

theorem ends_addEvent {e : Event} (he : e.terminalOutcome = none) :
    Ends w .CONTINUE (w.addEvent e) :=
  ends_continue id rfl rfl (by simp [he]) rfl

theorem ends_afterShared {α : Type} {env : Env} {op : Sync → α × Sync}
    (hop : ∀ s : Sync, s.NoAbort → (op (s.interfere env.schedule)).2.NoAbort) :
    Ends w .CONTINUE (w.afterShared env op) :=
  ends_continue (hop _) rfl rfl rfl rfl

/-- The end of a leaf. -/
theorem LeafRun.ends {n : PhaseNode} {unit : String} {td : Bool}
    (h : LeafRun Sync.NoAbort n unit rec td w r w') : Ends w r w' := by
  cases h with
  | skipped s first next hs htd hfail =>
      exact ends_continue (fun _ ↦ hs.sync) hs.status hs.outcome (by simp [Event.terminalOutcome]) rfl
  | ended o s hs hfail =>
      have ht := World.terminalOutcomes_concluded o unit rec
      refine ⟨fun _ ↦ by simpa using hs.sync, by simpa using hs.status,
        by simpa using hs.outcome, (Event.ended w.callstack n td o).terminalOutcome.toList, ?_, ?_, ?_⟩
      · simp [ht, Event.terminalOutcome]
      · rw [World.concluded_lastOutcome]
        cases hterm : o.isTerminal <;> simp [Event.terminalOutcome, hterm]
      · cases hterm : o.isTerminal <;>
          simp [PhaseExecutionOutcome.executorReturn, Event.terminalOutcome, hterm]

end Ends

/-! ## The tree -/

def terminalSpec : TreeSpec where
  valid n := n ≠ .unhandled
  node _ _ _ w := w.run.sync.NoAbort
  loop _ _ w := w.run.sync.NoAbort
  sequence _ _ _ w := w.run.sync.NoAbort
  returns _ w r w' := Ends w r w'
  raises _ _ _ := False

section Tree

variable {env : Env} {exec : PhaseExecutor}

/-- A statement that does what `terminalSpec` says, as a part of an activity. -/
theorem terminal_visiting {rec : Option ℕ} {n : PhaseNode} {td : Bool}
    {x : Executor ExecutorReturn}
    (h : ∀ w, w.Knows rec → w.run.sync.NoAbort → wp x (Ends w) (fun _ _ ↦ False) w) :
    terminalSpec.Holds (fun w ↦ w.run.sync.NoAbort) rec (visiting n td x) := by
  intro w hw hs
  simp only [wp_visiting]
  refine wp.mono (h _ ?_ ?_) (fun r w' hr ↦ ?_) fun _ _ hf ↦ hf
  · exact hw
  · exact hs
  · exact ((hr.after (ends_setCallstack _)).before (ends_setCallstack _)).before (ends_addEvent rfl)

theorem terminal_reaching {rec : Option ℕ} {s : PhaseSequence} {td : Bool}
    {x : Executor ExecutorReturn}
    (h : ∀ w, w.Knows rec → w.run.sync.NoAbort → wp x (Ends w) (fun _ _ ↦ False) w) :
    terminalSpec.Holds (fun w ↦ w.run.sync.NoAbort) rec (reaching s rec td x) := by
  intro w hw hs
  simp only [wp_reaching]
  refine wp.mono (h _ ?_ ?_) (fun r w' hr ↦ ?_) fun _ _ hf ↦ hf
  · exact hw
  · exact hs
  · exact (hr.after (ends_addEvent rfl)).before (ends_addEvent rfl)

theorem terminal_leaf {rec : Option ℕ} {n : PhaseNode} {unit : String} {td : Bool}
    {x : Executor ExecutorReturn}
    (h : ∀ w, w.run.sync.NoAbort → wp x (LeafRun Sync.NoAbort n unit rec td w) (fun _ _ ↦ False) w) :
    terminalSpec.Holds (fun w ↦ w.run.sync.NoAbort) rec (visiting n td x) :=
  terminal_visiting fun w _ hs ↦ (h w hs).mono (fun _ _ hr ↦ hr.ends) fun _ _ hf ↦ hf

theorem terminal_sound (hexec : exec.Assigns Sync.NoAbort) (henv : env.RunsOn) :
    terminalSpec.Sound env exec where
  none := ends_continue id rfl rfl rfl rfl
  andThen _ _ h h' := h.trans h'
  andRaise _ _ _ h := h
  loop _ _ hs h := h.sync hs
  phase p rec td _ :=
    terminal_leaf fun w hs ↦
      executeLeaf_spec Sync.stable_noAbort (hexec.skipPhase p) (hexec.run Sync.stable_noAbort henv p) hs
  checkpoint c rec td _ :=
    terminal_leaf fun w hs ↦
      executeLeaf_spec Sync.stable_noAbort (hexec.skipCheckpoint c) (hexec.evaluateCheckpoint c) hs
  unhandled _ _ h := absurd rfl h
  sequenceNode s rec td _ hseq := by
    have hseq (rec : Option ℕ) (w : World) (hw : w.Knows rec) (hs : w.run.sync.NoAbort) :
        wp (executeSequence env exec s rec td) (Ends w) (fun _ _ ↦ False) w :=
      (hseq rec w hw hs).mono (fun _ _ hr ↦ hr.2) fun _ _ hf ↦ hf.2
    refine terminal_visiting (terminal_reaching fun w hw hs ↦ ?_)
    unfold executeSequenceNode
    cases s.kind with
    | plain => exact hseq rec w hw hs
    | subtest =>
        dsimp only
        rw [wp_executeSubtest hw]
        refine wp.mono (hseq _ _ knows_beginSubtest ?_) (fun r w' hr ↦ ?_) fun _ _ hf ↦ hf
        · exact hs
        · have hbegin : Ends w .CONTINUE (w.beginSubtest s (w.subtestFails rec)) :=
            ends_continue id rfl rfl rfl rfl
          have hend (w' : World) (i : ℕ) (b : Bool) : Ends w' .CONTINUE (w'.endSubtest i b r) :=
            ends_continue id rfl rfl (by simp [World.endSubtest, World.terminalOutcomes, Event.terminalOutcome]) rfl
          exact (((hr.after (ends_setCallstack _)).after (hend _ _ _)).before
            (ends_setCallstack _)).before hbegin
    | branch c =>
        have hevaluating : Ends w .CONTINUE (w.evaluating s td) :=
          ends_continue id rfl rfl (by simp [World.evaluating, Event.terminalOutcome]) rfl
        have hbranch (w' : World) (taken : Bool) :
            Ends w' .CONTINUE (w'.addBranch s c taken w.run.moment) := ends_continue id rfl rfl rfl rfl
        simp only [wp_executePhaseBranch]
        split_ifs
        · exact ends_continue id rfl rfl rfl rfl
        · refine wp.mono (hseq _ _ ?_ ?_) (fun r w' hr ↦ ?_) fun _ _ hf ↦ hf
          · exact hw
          · exact hs
          · exact (((hr.after (ends_setCallstack _)).after (hbranch _ _)).before
              (ends_setCallstack _)).before hevaluating
        · exact hevaluating.after (hbranch _ _)
  part s rec td _ hseq := terminal_reaching fun w hw hs ↦
    (hseq w hw hs).mono (fun _ _ hr ↦ hr.2) fun _ _ hf ↦ hf.2
  group g rec td _ hpart := by
    obtain ⟨setup, main, teardown, name⟩ := g
    have hgroup (w : World) (hw : w.Knows rec) (hs : w.run.sync.NoAbort) :
        wp (executePhaseGroup (.mk setup main teardown name) rec td (executePart env exec setup rec td)
          (executePart env exec main rec td) (executePart env exec teardown rec)) (Ends w)
          (fun _ _ ↦ False) w := by
      simp only [wp_executePhaseGroup]
      refine wp.mono (hpart setup (.inl rfl) td w hw fun _ _ ↦ hs) ?_ fun _ _ hf ↦ hf.2
      rintro r w₁ ⟨hf₁, h₁⟩
      split_ifs with hr
      · exact h₁
      · have hmain := h₁.after (ends_addEvent rfl : Ends _ _ (w₁.addEvent
          (.groupMain w₁.callstack (.mk setup main teardown name) td (w₁.subtestFails rec))))
        refine wp.mono (hpart main (.inr (.inl rfl)) td _ ?_ fun _ _ ↦ ?_) ?_ fun _ _ hf ↦ hf.2
        · exact hf₁.knows hw
        · exact h₁.sync hs
        rintro r' w₂ ⟨hf₂, h₂⟩
        refine wp.mono (hpart teardown (.inr (.inr rfl)) _ _ ?_ fun _ _ ↦ ?_) ?_ fun _ _ hf ↦ hf.2
        · exact hf₂.knows (hf₁.knows hw)
        · exact h₂.sync (h₁.sync hs)
        rintro r'' w₃ ⟨hf₃, h₃⟩
        obtain rfl : r = .CONTINUE := not_not.mp hr
        exact (hmain.trans ((h₂.after (ends_addEvent rfl)).trans h₃)).after (ends_addEvent rfl)
    refine terminal_visiting fun w hw hs ↦ ?_
    have henter : Ends w .CONTINUE (w.afterShared env Sync.enterGroup) :=
      ends_afterShared fun s hs ↦ Sync.stable_noAbort.enterGroup (Sync.stable_noAbort.interfere _ hs)
    simp only [wp_enteringGroup]
    refine (hgroup (w.afterShared env Sync.enterGroup) ?_ ?_).mono ?_ fun _ _ hf ↦ hf
    · exact hw
    · exact henter.sync hs
    · exact fun _ _ hr ↦ hr.before henter
  abortable s rec h := by
    intro w hw hs
    simp only [wp_within]
    refine wp.mono (h _ ?_ ?_) (fun r w' hr ↦ ?_) fun _ _ hf ↦ hf.2
    · exact hw
    · exact hs
    · exact (hr.2.after (ends_setCallstack _)).before (ends_setCallstack _)
  teardown s rec h := by
    intro w hw hs
    simp only [wp_within, wp_withTeardownPhasesLock]
    refine wp.mono (h _ ?_ ?_) (fun r w' hr ↦ ?_) fun _ _ hf ↦ hf.2
    · exact hw
    · exact Sync.stable_noAbort.acquire (Sync.stable_noAbort.interfere _ hs)
    · exact ((((hr.2.after (ends_afterShared fun s hs ↦ Sync.stable_noAbort.release
        (Sync.stable_noAbort.interfere _ hs))).after (ends_setCallstack _)).before
        (ends_afterShared fun s hs ↦ Sync.stable_noAbort.acquire
          (Sync.stable_noAbort.interfere _ hs))).before (ends_setCallstack _))
  aborted hw hs ha := by
    have := (Sync.stable_noAbort.interfere env.schedule hs).abort
    simp [this] at ha
  notAborted hw hs ha :=
    ⟨ends_afterShared fun s hs ↦ Sync.stable_noAbort.setStartPending _ (Sync.stable_noAbort.interfere _ hs),
      Sync.stable_noAbort.setStartPending _ (Sync.stable_noAbort.interfere _ hs)⟩
  fullAborted hw hs ha := by
    have := (Sync.stable_noAbort.interfere env.schedule hs).fullAbort
    simp [this] at ha
  notFullAborted hw hs ha :=
    ⟨ends_afterShared fun s hs ↦ Sync.stable_noAbort.interfere _ hs, Sync.stable_noAbort.interfere _ hs⟩

end Tree

/-! ## The end of the test -/

/-- The executor is about to run the phase sequence of a test that nobody aborts. -/
structure Started (w : World) : Prop where
  created : w.testStateCreated = true
  running : w.run.testState.status = .RUNNING
  open_ : w.run.testRecord.outcome = none
  noAbort : w.run.sync.NoAbort
  lastOutcome : w.lastOutcome = none
  events : w.events = []

section EndOfTest

variable (env : Env) (exec : PhaseExecutor) (s : PhaseSequence) (w : World)

/-- The world after `_execute_node` on the phase sequence. -/
def afterTree : World := (executeNode env exec (.sequence s) none false w).2

/-- The world after the phases, the test diagnosers and `_execute_test_teardown`. -/
def afterTest : World := (Act.finally' (runPhases env exec s) (executeTestTeardown env) w).2

/-- The steps of the test diagnosers and of `_execute_test_teardown`. -/
def stepsAfterTree : List Step :=
  (afterTest env exec s w).run.steps.drop (afterTree env exec s w).run.steps.length

/-- The exceptions that came out of test diagnosers. -/
def diagnoserExceptions : List PyExc :=
  (stepsAfterTree env exec s w).filterMap Step.testDiagnoserException

/-- The first terminal outcome of a leaf decides what `_execute_node` returns,
the last outcome and the outcome of the test; the test is finalised normally
exactly when there is none and no test diagnoser raised. -/
structure FirstTerminalWins : Prop where
  node : ∃ r, (executeNode env exec (.sequence s) none false w).1 = .ok r ∧
    (r = .TERMINAL ↔ (afterTree env exec s w).terminalOutcomes ≠ [])
  lastOutcome : (afterTree env exec s w).lastOutcome =
    (afterTree env exec s w).terminalOutcomes.head?
  verdict : ∀ o ∈ (afterTree env exec s w).terminalOutcomes.head?,
    (afterTest env exec s w).run.testRecord.outcome = some (env.testOptions.verdict o)
  normally : .finalizedNormally ∈ stepsAfterTree env exec s w ↔
    (afterTree env exec s w).terminalOutcomes = [] ∧ diagnoserExceptions env exec s w = []

variable {env exec s w}

/-- How the execution of the tree ends. -/
theorem afterTree_spec (hexec : exec.Assigns Sync.NoAbort) (henv : env.RunsOn)
    (hs : .unhandled ∉ s.allNodes) (hw : Started w) :
    ∃ r, executeNode env exec (.sequence s) none false w = (.ok r, afterTree env exec s w) ∧
      (r = .TERMINAL ↔ (afterTree env exec s w).terminalOutcomes ≠ []) ∧
      (afterTree env exec s w).lastOutcome = (afterTree env exec s w).terminalOutcomes.head? ∧
      (afterTree env exec s w).run.sync.NoAbort ∧
      (afterTree env exec s w).testStateCreated = true ∧
      (afterTree env exec s w).run.testState.status = .RUNNING ∧
      (afterTree env exec s w).run.testRecord.outcome = none := by
  have hvalid : ∀ m, m = .sequence s ∨ m ∈ (PhaseNode.sequence s).nodesBelow →
      terminalSpec.valid m := by
    rintro m (rfl | hm)
    · exact nofun
    · exact fun h ↦ hs (h ▸ hm)
  have hknows : w.Knows none := nofun
  have hends := (terminal_sound hexec henv).tree.1 (.sequence s) hvalid none false w hknows hw.noAbort
  have hframe : TreeFrame none w (afterTree env exec s w) :=
    framed_tree.1 (.sequence s) none false w hknows
  rcases hrun : executeNode env exec (.sequence s) none false w with ⟨e | r, w₁⟩
  · exact (hends.of_error hrun).elim
  · have hafter : afterTree env exec s w = w₁ := by rw [afterTree, hrun]
    rw [hafter] at hframe ⊢
    obtain ⟨hsync, hstatus, hout, l, ht, hl, hr⟩ : Ends w r w₁ := hends.of_ok hrun
    have ht : w₁.terminalOutcomes = l := by
      rw [ht, World.terminalOutcomes, hw.events, List.filterMap_nil, List.nil_append]
    refine ⟨r, rfl, ht.symm ▸ hr, ?_, hsync hw.noAbort, hframe.created.trans hw.created,
      hstatus.trans hw.running, hout.trans hw.open_⟩
    rw [hl, hw.lastOutcome, Option.none_or, ht]

/-- How the test diagnosers end, from the world after the tree. -/
theorem afterTest_spec {r : ExecutorReturn} {w₁ : World}
    (hrun : executeNode env exec (.sequence s) none false w = (.ok r, w₁))
    (hlast : w₁.LastTerminal) :
    ∃ es caught w₂, Diagnosed es caught w₁ w₂ ∧ (∀ e ∈ caught, e.isException = true) ∧
      (es = caught ∨ ∃ e, es = caught ++ [e] ∧ e.isException = false) ∧
      afterTest env exec s w = (executeTestTeardown env w₂).2 := by
  have hds := executeTestDiagnosers_spec env.testOptions.diagnosers hlast
  have hphases : runPhases env exec s w =
      (do executeTestDiagnosers env.testOptions.diagnosers; pure r : Executor ExecutorReturn) w₁ := by
    simp [runPhases, hrun, andThen]
  rw [wp] at hds
  unfold afterTest Act.finally'
  rw [hphases]
  rcases hd : executeTestDiagnosers env.testOptions.diagnosers w₁ with ⟨e | _, w₂⟩ <;> rw [hd] at hds
  · obtain ⟨es, h, hes, he⟩ := hds
    refine ⟨es ++ [e], es, w₂, h, hes, .inr ⟨e, rfl, he⟩, ?_⟩
    simp only [bind_apply, hd, andThen]
    split <;> simp_all
  · obtain ⟨es, h, hes⟩ := hds
    refine ⟨es, es, w₂, h, hes, .inl rfl, ?_⟩
    simp only [bind_apply, hd, andThen, pure_apply]
    split <;> simp_all

/-- The steps after the tree, when the test is over. -/
theorem steps_of_over {es caught : List PyExc} {w₂ : World} {o : Outcome} {normal : Prop}
    (hd : Diagnosed es caught (afterTree env exec s w) w₂)
    (h : w₂.Over o normal (afterTest env exec s w)) :
    diagnoserExceptions env exec s w = es ∧
      (.finalizedNormally ∈ stepsAfterTree env exec s w ↔ normal) := by
  obtain ⟨l, hl, hles, hln⟩ := hd.steps
  obtain ⟨l', hl', hnone, hnormal⟩ := h.steps
  have hsteps : stepsAfterTree env exec s w = l ++ l' := by
    rw [stepsAfterTree, hl', hl, List.append_assoc, List.drop_left]
  refine ⟨?_, ?_⟩
  · rw [diagnoserExceptions, hsteps, List.filterMap_append, hles,
      List.filterMap_eq_nil_iff.mpr hnone, List.append_nil]
  · rw [hsteps, List.mem_append, or_iff_right hln, hnormal]

theorem isTerminal_of_mem {o : PhaseExecutionOutcome} (h : o ∈ w.terminalOutcomes) :
    o.isTerminal = true := by
  obtain ⟨e, -, he⟩ := List.mem_filterMap.mp h
  cases e with
  | ended ctx n td o' =>
      rw [Event.terminalOutcome] at he
      split at he
      · obtain rfl : o' = o := Option.some.inj he
        assumption
      · cases he
  | _ => cases he

end EndOfTest

end OpenHtf
