import OpenHtf.PhaseFrame
import OpenHtf.TestExecutor

/-!
# The end of a test

What the test diagnosers and `_execute_test_teardown` come to: which stage of
`TestState` finalises the test, with which outcome, and when it does not.
-/

set_option autoImplicit false

namespace OpenHtf

open Act TestExecutor

/-- The outcome of a test that was ended by the outcome `o` of a phase. -/
def TestOptions.verdict (options : TestOptions) : PhaseExecutionOutcome → Outcome
  | .timeout => .TIMEOUT
  | .result _ => .FAIL
  | .raised e => if options.failureExceptions.any e.isinstance then .FAIL else .ERROR
  | .terminated => .ERROR

def Step.testDiagnoserException : Step → Option PyExc
  | .testDiagnoserRaised e => some e
  | _ => none

/-! ## Finalising -/

/-- The test is over, with the outcome `o`; neither the shared state nor the
steps changed. -/
structure RunState.Over (o : Outcome) (s s' : RunState) : Prop where
  status : s'.testState.status = .COMPLETED
  outcome : s'.testRecord.outcome = some o
  endTime : s'.testRecord.endTimeMillis.isSome = true
  steps : s'.steps = s.steps

section Finalize

variable {s : RunState} {env : Env}

theorem finalizeTest_spec {o : Outcome} (h : s.testState.status ≠ .COMPLETED) :
    wp (finalizeTest o) (fun _ s' ↦ s.Over o s') (fun _ _ ↦ False) s := by
  have hopen : s.testState.isFinalized = false := by simpa [TestState.isFinalized] using h
  simp only [finalizeTest, timeMillis, wp_bind, wp_gets, wp_ite, wp_raise, wp_modify, wp_callUser,
    hopen, Bool.false_eq_true, false_and, if_false]
  split_ifs
  · exact ⟨rfl, rfl, rfl, rfl⟩
  · exact ⟨rfl, rfl, rfl, rfl⟩

/-- Details may be added before. -/
theorem finalizeTest_after {o : Outcome} {s₁ : RunState} (h : s.testState.status ≠ .COMPLETED)
    (hstatus : s₁.testState.status = s.testState.status) (hsteps : s₁.steps = s.steps) :
    wp (finalizeTest o) (fun _ s' ↦ s.Over o s') (fun _ _ ↦ False) s₁ :=
  (finalizeTest_spec (hstatus.symm ▸ h)).mono
    (fun _ _ ho ↦ ⟨ho.status, ho.outcome, ho.endTime, ho.steps.trans hsteps⟩) fun _ _ hf ↦ hf

theorem not_isAborted (h : s.testState.status ≠ .COMPLETED) : s.testState.isAborted = false := by
  simp [TestState.isAborted, TestState.isFinalized, h]

theorem finalizeFromPhaseOutcome_spec {o : PhaseExecutionOutcome} (unit : String)
    (h : s.testState.status ≠ .COMPLETED) (ho : o.isTerminal = true)
    (hexc : o = .terminated → env.testOptions.failureExceptions = []) :
    wp (finalizeFromPhaseOutcome env o unit) (fun _ s' ↦ s.Over (env.testOptions.verdict o) s')
      (fun _ _ ↦ False) s := by
  simp only [finalizeFromPhaseOutcome, wp_bind, wp_gets, wp_ite, not_isAborted h,
    Bool.false_eq_true, if_false]
  cases o with
  | timeout => exact finalizeTest_after h rfl rfl
  | result r =>
      obtain rfl : r = .STOP := by
        simpa [PhaseExecutionOutcome.isTerminal, PhaseExecutionOutcome.raisedException,
          PhaseExecutionOutcome.isTimeout] using ho
      exact finalizeTest_after h rfl rfl
  | raised e =>
      simp only [PhaseExecutionOutcome.raisedException, if_true, addOutcomeDetails, wp_modify,
        outcomeIsFailureException, wp_pure, TestOptions.verdict]
      split_ifs <;> exact finalizeTest_after h rfl rfl
  | terminated =>
      simp only [PhaseExecutionOutcome.raisedException, if_true, addOutcomeDetails, wp_modify,
        outcomeIsFailureException, wp_pure, hexc rfl, Bool.false_eq_true, if_false,
        TestOptions.verdict]
      exact finalizeTest_after h rfl rfl

/-- A `ThreadTerminationError` has no `exc_val` to look up. -/
theorem finalizeFromPhaseOutcome_crash (unit : String) (h : s.testState.status ≠ .COMPLETED)
    (hexc : env.testOptions.failureExceptions ≠ []) :
    wp (finalizeFromPhaseOutcome env .terminated unit) (fun _ _ ↦ False)
      (fun _ s' ↦ s'.testRecord.outcome = s.testRecord.outcome ∧ s'.steps = s.steps ∧
        s'.testState.status = s.testState.status) s := by
  simp only [finalizeFromPhaseOutcome, wp_bind, wp_gets, wp_ite, not_isAborted h,
    Bool.false_eq_true, if_false, PhaseExecutionOutcome.raisedException, if_true,
    addOutcomeDetails, wp_modify, outcomeIsFailureException, hexc, wp_raise]
  exact ⟨rfl, rfl, rfl⟩

theorem finalizeNormally_spec (h : s.testState.status ≠ .COMPLETED) :
    wp finalizeNormally (fun _ s' ↦ ∃ o, s.Over o s') (fun _ _ ↦ False) s := by
  have hover {o : Outcome} {s₁ : RunState} (hstatus : s₁.testState.status = s.testState.status)
      (hsteps : s₁.steps = s.steps) :
      wp (finalizeTest o) (fun _ s' ↦ ∃ o, s.Over o s') (fun _ _ ↦ False) s₁ :=
    (finalizeTest_after h hstatus hsteps).mono (fun _ _ ho ↦ ⟨o, ho⟩) fun _ _ hf ↦ hf
  simp only [finalizeNormally, addMultidimOutcomeDetails, addOutcomeDetails, wp_bind, wp_gets,
    wp_ite, wp_pure, wp_modify, not_isAborted h, Bool.false_eq_true, if_false]
  split_ifs <;> exact hover rfl rfl

theorem abortTest_spec (h : s.testState.status ≠ .COMPLETED) :
    wp abortTest (fun _ s' ↦ s.Over .ABORTED s') (fun _ _ ↦ False) s := by
  simp only [abortTest, addOutcomeDetails, wp_bind, wp_gets, wp_ite, wp_pure, wp_modify,
    not_isAborted h, Bool.false_eq_true, if_false]
  exact finalizeTest_after h rfl rfl

end Finalize

/-! ## Tearing down -/

/-- What the teardown of the plugs keeps. -/
structure PlugsTornDown (s s' : RunState) : Prop where
  sync : s'.sync = s.sync
  status : s'.testState.status = s.testState.status
  outcome : s'.testRecord.outcome = s.testRecord.outcome
  steps : ∃ l : List Step, s'.steps = s.steps ++ l ∧ ∀ x ∈ l, ∃ p, x = .plugTornDown p

theorem tearDownPlugs_spec (s : RunState) :
    wp tearDownPlugs (fun _ s' ↦ PlugsTornDown s s') (fun _ _ ↦ False) s := by
  have hlist (plugs : List (ℕ × PlugInstance)) (s : RunState) :
      wp (tearDownPlugList plugs) (fun _ s' ↦ PlugsTornDown s s') (fun _ _ ↦ False) s := by
    induction plugs generalizing s with
    | nil => exact ⟨rfl, rfl, rfl, [], by simp, by simp⟩
    | cons plug plugs ih =>
        simp only [tearDownPlugList, noteStep, wp_bind, wp_modify]
        refine (ih _).mono ?_ fun _ _ hf ↦ hf
        rintro - s' ⟨hsync, hstatus, hout, l, hl, hmem⟩
        refine ⟨hsync, hstatus, hout, .plugTornDown plug.2 :: l, ?_, ?_⟩
        · simp [hl, RunState.addStep]
        · rintro x hx
          rcases List.mem_cons.mp hx with rfl | hx
          · exact ⟨_, rfl⟩
          · exact hmem x hx
  simp only [tearDownPlugs, mapPlugManager, wp_bind, wp_gets, wp_modify]
  exact (hlist _ s).mono (fun _ _ h ↦ ⟨h.sync, h.status, h.outcome, h.steps⟩) fun _ _ hf ↦ hf

/-- The test is over, with the outcome `o`; `normal` tells whether it was
finalised normally. -/
structure World.Over (o : Outcome) (normal : Prop) (w w' : World) : Prop where
  status : w'.run.testState.status = .COMPLETED
  outcome : w'.run.testRecord.outcome = some o
  endTime : w'.run.testRecord.endTimeMillis.isSome = true
  steps : ∃ l, w'.run.steps = w.run.steps ++ l ∧
    (∀ x ∈ l, x.testDiagnoserException = none) ∧ (.finalizedNormally ∈ l ↔ normal)

/-- The run once the plugs are torn down and `_abort` has been read. -/
structure TornDown (env : Env) (w : World) (s : RunState) : Prop where
  sync : s.sync = w.run.sync.interfere env.schedule
  status : s.testState.status = w.run.testState.status
  outcome : s.testRecord.outcome = w.run.testRecord.outcome
  steps : ∃ l, s.steps = w.run.steps ++ l ∧ ∀ x ∈ l, ∃ p, x = .plugTornDown p

section Teardown

variable {env : Env} {w : World}

/-- The plugs are torn down and `_abort` is read; then comes what `h` is about. -/
theorem executeTestTeardown_wp {Q : Unit → World → Prop} {E : PyExc → World → Prop}
    (hcreated : w.testStateCreated = true)
    (h : ∀ s, TornDown env w s →
      if s.sync.abort = true then
        wp abortTest (fun a s' ↦ Q a (w.setRun s')) (fun e s' ↦ E e (w.setRun s'))
          (s.addStep .finalizedAborted)
      else
        match w.lastOutcome.filter (·.isTerminal) with
        | some o => wp (finalizeFromPhaseOutcome env o (w.lastExecutionUnit.getD "None"))
            (fun a s' ↦ Q a (w.setRun s')) (fun e s' ↦ E e (w.setRun s'))
            (s.addStep (.finalizedFromOutcome o))
        | none => wp finalizeNormally (fun a s' ↦ Q a (w.setRun s')) (fun e s' ↦ E e (w.setRun s'))
            (s.addStep .finalizedNormally)) :
    wp (executeTestTeardown env) Q E w := by
  simp only [executeTestTeardown, wp_bind, wp_gets, wp_ite, hcreated, Bool.not_true,
    Bool.false_eq_true, if_false, wp_onRun, wp_shared, noteStep, wp_modify]
  refine (tearDownPlugs_spec w.run).mono ?_ fun _ _ hf ↦ hf.elim
  rintro - s ⟨hsync, hstatus, hout, hsteps⟩
  have h := h { s with sync := s.sync.interfere env.schedule } ⟨by rw [hsync], hstatus, hout, hsteps⟩
  simp only [Sync.abortIsSet, World.setRun_run, World.setRun_setRun, World.setRun_lastOutcome,
    World.setRun_lastExecutionUnit]
  split_ifs at h ⊢ with ha
  · exact h
  · cases ho : w.lastOutcome with
    | none => simpa [ho] using h
    | some o => cases ht : o.isTerminal <;> simpa [ho, ht, Option.filter] using h

/-- The steps of a test that is over. -/
theorem TornDown.over {s s' : RunState} {x : Step} {o : Outcome} (h : TornDown env w s)
    (hx : x.testDiagnoserException = none) (ho : (s.addStep x).Over o s') :
    w.Over o (x = .finalizedNormally) (w.setRun s') := by
  obtain ⟨l, hl, hmem⟩ := h.steps
  refine ⟨ho.status, ho.outcome, ho.endTime, l ++ [x], ?_, ?_, ?_⟩
  · simpa [RunState.addStep, hl] using ho.steps
  · rintro y hy
    rcases List.mem_append.mp hy with hy | hy
    · obtain ⟨p, rfl⟩ := hmem y hy
      rfl
    · rwa [List.mem_singleton.mp hy]
  · have hn : Step.finalizedNormally ∉ l := fun hf ↦ by
      obtain ⟨p, hp⟩ := hmem _ hf
      cases hp
    simp [hn, eq_comm]

theorem executeTestTeardown_aborted (hcreated : w.testStateCreated = true)
    (hstatus : w.run.testState.status ≠ .COMPLETED)
    (ha : (w.run.sync.interfere env.schedule).abort = true) :
    wp (executeTestTeardown env) (fun _ ↦ w.Over .ABORTED False) (fun _ _ ↦ False) w := by
  refine executeTestTeardown_wp hcreated fun s hs ↦ ?_
  rw [if_pos (by rw [hs.sync, ha])]
  refine (abortTest_spec ?_).mono (fun _ s' ho ↦ ?_) fun _ _ hf ↦ hf
  · exact hs.status.symm ▸ hstatus
  · simpa using hs.over rfl ho

theorem executeTestTeardown_outcome {o : PhaseExecutionOutcome}
    (hcreated : w.testStateCreated = true) (hstatus : w.run.testState.status ≠ .COMPLETED)
    (ha : (w.run.sync.interfere env.schedule).abort = false) (hlast : w.lastOutcome = some o)
    (ho : o.isTerminal = true) (hexc : o = .terminated → env.testOptions.failureExceptions = []) :
    wp (executeTestTeardown env) (fun _ ↦ w.Over (env.testOptions.verdict o) False)
      (fun _ _ ↦ False) w := by
  refine executeTestTeardown_wp hcreated fun s hs ↦ ?_
  rw [if_neg (by simp [hs.sync, ha]), hlast, Option.filter_some_pos ho]
  refine (finalizeFromPhaseOutcome_spec _ ?_ ho hexc).mono (fun _ s' ho ↦ ?_) fun _ _ hf ↦ hf
  · exact hs.status.symm ▸ hstatus
  · simpa using hs.over rfl ho

theorem executeTestTeardown_crash (hcreated : w.testStateCreated = true)
    (hstatus : w.run.testState.status ≠ .COMPLETED)
    (ha : (w.run.sync.interfere env.schedule).abort = false)
    (hlast : w.lastOutcome = some .terminated) (hexc : env.testOptions.failureExceptions ≠ []) :
    wp (executeTestTeardown env) (fun _ _ ↦ False)
      (fun _ w' ↦ w'.run.testRecord.outcome = w.run.testRecord.outcome ∧
        w'.run.testState.status = w.run.testState.status) w := by
  refine executeTestTeardown_wp hcreated fun s hs ↦ ?_
  rw [if_neg (by simp [hs.sync, ha]), hlast, Option.filter_some_pos (by decide)]
  refine (finalizeFromPhaseOutcome_crash _ ?_ hexc).mono (fun _ _ hf ↦ hf) fun _ s' hs' ↦ ?_
  · exact hs.status.symm ▸ hstatus
  · exact ⟨hs'.1.trans hs.outcome, hs'.2.2.trans hs.status⟩

theorem executeTestTeardown_normal (hcreated : w.testStateCreated = true)
    (hstatus : w.run.testState.status ≠ .COMPLETED)
    (ha : (w.run.sync.interfere env.schedule).abort = false)
    (hlast : ∀ o ∈ w.lastOutcome, o.isTerminal = false) :
    wp (executeTestTeardown env) (fun _ w' ↦ ∃ o, w.Over o True w') (fun _ _ ↦ False) w := by
  refine executeTestTeardown_wp hcreated fun s hs ↦ ?_
  have hnone : w.lastOutcome.filter (·.isTerminal) = none := by
    cases ho : w.lastOutcome with
    | none => rfl
    | some o => simpa [Option.filter] using hlast o ho
  rw [if_neg (by simp [hs.sync, ha]), hnone]
  refine (finalizeNormally_spec ?_).mono (fun _ s' ho ↦ ?_) fun _ _ hf ↦ hf
  · exact hs.status.symm ▸ hstatus
  · obtain ⟨o, ho⟩ := ho
    exact ⟨o, by simpa using hs.over rfl ho⟩

end Teardown

/-! ## The test diagnosers -/

/-- What running a test diagnoser keeps. -/
structure DiagnoserFrame (s s' : RunState) : Prop where
  testState : s'.testState.outsidePhases = s.testState.outsidePhases
  sync : s'.sync = s.sync
  steps : ∃ l, s'.steps = s.steps ++ l ∧
    ∀ x ∈ l, (∃ e, x = .raised e) ∨ ∃ d, x = .diagnosisAccepted d

instance : Std.Refl DiagnoserFrame where
  refl _ := ⟨rfl, rfl, [], by simp, by simp⟩

instance : IsTrans RunState DiagnoserFrame where
  trans _ _ _ := by
    rintro ⟨ht, hs, l, hl, hmem⟩ ⟨ht', hs', l', hl', hmem'⟩
    refine ⟨ht'.trans ht, hs'.trans hs, l ++ l', ?_, ?_⟩
    · rw [hl', hl, List.append_assoc]
    · exact fun x hx ↦ (List.mem_append.mp hx).elim (hmem x) (hmem' x)

theorem diagnoserFrame_acceptTestDiagnosis (d : Diagnosis) :
    Within DiagnoserFrame (acceptTestDiagnosis d) := by
  have hrecord : Within DiagnoserFrame (recordDiagnosis d) :=
    .modify fun _ ↦ ⟨rfl, rfl, [], (List.append_nil _).symm, nofun⟩
  have hstore : Within DiagnoserFrame (storeDiagnosis d) :=
    .modify fun _ ↦ ⟨rfl, rfl, [], (List.append_nil _).symm, nofun⟩
  have hnote : Within DiagnoserFrame (noteStep (.diagnosisAccepted d)) :=
    .modify fun _ ↦ ⟨rfl, rfl, [.diagnosisAccepted d], rfl, by simp⟩
  exact .ite (fun _ ↦ .bind .raise fun _ ↦ .bind hnote fun _ ↦ .bind hrecord fun _ ↦ hstore)
    fun _ ↦ .bind hnote fun _ ↦ .bind hrecord fun _ ↦ hstore

theorem diagnoserFrame_runDiagnoser (d : Diagnoser) :
    Within DiagnoserFrame (runDiagnoser d acceptTestDiagnosis) :=
  within_runDiagnoser (fun _ _ ↦ ⟨rfl, rfl, [], (List.append_nil _).symm, nofun⟩)
    (fun e _ ↦ ⟨rfl, rfl, [.raised e], rfl, by simp⟩) diagnoserFrame_acceptTestDiagnosis d

/-- The last outcome is a terminal one, if there is one. -/
def World.LastTerminal (w : World) : Prop := ∀ o ∈ w.lastOutcome, o.isTerminal = true

/-- Test diagnosers ran: the exceptions `es` came out of them, of which `caught`
were caught. -/
structure Diagnosed (es caught : List PyExc) (w w' : World) : Prop where
  created : w'.testStateCreated = w.testStateCreated
  testState : w'.run.testState.outsidePhases = w.run.testState.outsidePhases
  sync : w'.run.sync = w.run.sync
  steps : ∃ l, w'.run.steps = w.run.steps ++ l ∧
    l.filterMap Step.testDiagnoserException = es ∧ .finalizedNormally ∉ l
  lastOutcome : w'.lastOutcome = w.lastOutcome.or (caught.head?.map .raised)

section Diagnosers

variable {w w' w₁ w₂ : World} {es es' caught caught' : List PyExc}

theorem Diagnosed.trans (h : Diagnosed es caught w w₁) (h' : Diagnosed es' caught' w₁ w₂) :
    Diagnosed (es ++ es') (caught ++ caught') w w₂ := by
  obtain ⟨hc, ht, hs, ⟨l, hl, hes, hn⟩, hlast⟩ := h
  obtain ⟨hc', ht', hs', ⟨l', hl', hes', hn'⟩, hlast'⟩ := h'
  refine ⟨hc'.trans hc, ht'.trans ht, hs'.trans hs, ⟨l ++ l', ?_, ?_, ?_⟩, ?_⟩
  · rw [hl', hl, List.append_assoc]
  · rw [List.filterMap_append, hes, hes']
  · simp [hn, hn']
  · rw [hlast', hlast, Option.or_assoc]
    cases caught <;> simp

theorem Diagnosed.lastTerminal (h : Diagnosed es caught w w') (hw : w.LastTerminal) :
    w'.LastTerminal := by
  intro o ho
  rw [h.lastOutcome] at ho
  cases hl : w.lastOutcome with
  | some o' =>
      obtain rfl : o' = o := by simpa [hl] using ho
      exact hw o' hl
  | none =>
      obtain ⟨e, -, rfl⟩ : ∃ e, caught.head? = some e ∧ .raised e = o := by simpa [hl] using ho
      rfl

theorem silent_of_raised {l : List Step}
    (h : ∀ x ∈ l, (∃ e, x = .raised e) ∨ ∃ d, x = .diagnosisAccepted d) :
    l.filterMap Step.testDiagnoserException = [] ∧ .finalizedNormally ∉ l := by
  constructor
  · rw [List.filterMap_eq_nil_iff]
    intro x hx
    rcases h x hx with ⟨e, rfl⟩ | ⟨d, rfl⟩
    · rfl
    · rfl
  · intro hf
    rcases h _ hf with ⟨e, he⟩ | ⟨d, hd⟩
    · cases he
    · cases hd

theorem executeTestDiagnoser_spec (d : Diagnoser) (hw : w.LastTerminal) :
    wp (executeTestDiagnoser d)
      (fun _ w' ↦ ∃ es, Diagnosed es es w w' ∧ ∀ e ∈ es, e.isException = true)
      (fun e w' ↦ Diagnosed [e] [] w w' ∧ e.isException = false) w := by
  simp only [executeTestDiagnoser, wp_catching, wp_onRun]
  refine ((diagnoserFrame_runDiagnoser d).wp w.run).mono ?_ ?_
  · rintro - s ⟨ht, hs, l, hl, hmem⟩
    obtain ⟨hes, hn⟩ := silent_of_raised hmem
    exact ⟨[], ⟨rfl, ht, hs, ⟨l, hl, hes, hn⟩, by simp⟩, by simp⟩
  · rintro e s ⟨ht, hs, l, hl, hmem⟩
    obtain ⟨hes, hn⟩ := silent_of_raised hmem
    have hsteps : ∃ l', (s.addStep (.testDiagnoserRaised e)).steps = w.run.steps ++ l' ∧
        l'.filterMap Step.testDiagnoserException = [e] ∧ .finalizedNormally ∉ l' := by
      refine ⟨l ++ [.testDiagnoserRaised e], ?_, ?_, ?_⟩
      · simp [RunState.addStep, hl]
      · simp [hes, Step.testDiagnoserException]
      · simp [hn]
    simp only [wp_bind, wp_onRun, noteStep, wp_modify, wp_ite, wp_gets, wp_pure, setLastOutcome,
      wp_raise, World.setRun_run, World.setRun_setRun, World.setRun_lastOutcome]
    split_ifs with he hterm
    · refine ⟨[e], ⟨rfl, ht, hs, hsteps, ?_⟩, by simpa using he⟩
      obtain ⟨o, ho⟩ : ∃ o, w.lastOutcome = some o := by
        cases hl : w.lastOutcome <;> simp_all
      rw [World.setRun_lastOutcome, ho, Option.some_or]
    · refine ⟨[e], ⟨rfl, ht, hs, hsteps, ?_⟩, by simpa using he⟩
      cases hl : w.lastOutcome with
      | none => rfl
      | some o => simp [hl, hw o hl] at hterm
    · exact ⟨⟨rfl, ht, hs, hsteps, by simp⟩, by simpa using he⟩

theorem executeTestDiagnosers_spec (ds : List Diagnoser) (hw : w.LastTerminal) :
    wp (executeTestDiagnosers ds)
      (fun _ w' ↦ ∃ es, Diagnosed es es w w' ∧ ∀ e ∈ es, e.isException = true)
      (fun e w' ↦ ∃ es, Diagnosed (es ++ [e]) es w w' ∧ (∀ e ∈ es, e.isException = true) ∧
        e.isException = false) w := by
  induction ds generalizing w with
  | nil => exact ⟨[], ⟨rfl, rfl, rfl, ⟨[], by simp, rfl, by simp⟩, by simp⟩, by simp⟩
  | cons d ds ih =>
      simp only [executeTestDiagnosers, wp_bind]
      refine (executeTestDiagnoser_spec d hw).mono ?_ ?_
      · rintro - w₁ ⟨es, h, hes⟩
        refine (ih (h.lastTerminal hw)).mono ?_ ?_
        · rintro - w₂ ⟨es', h', hes'⟩
          exact ⟨es ++ es', h.trans h', fun e he ↦ (List.mem_append.mp he).elim (hes e) (hes' e)⟩
        · rintro e w₂ ⟨es', h', hes', he⟩
          refine ⟨es ++ es', ?_, fun e he ↦ (List.mem_append.mp he).elim (hes e) (hes' e), he⟩
          rw [List.append_assoc]
          exact h.trans h'
      · exact fun e w₁ ⟨h, he⟩ ↦ ⟨[], h, nofun, he⟩

end Diagnosers

end OpenHtf
