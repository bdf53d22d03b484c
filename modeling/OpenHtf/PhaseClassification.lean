import OpenHtf.PhaseFrame

/-!
# The classification of a phase

What the outcome of a phase is after `PhaseState.finalize`.  It is computed
before the diagnosers run and revised afterwards, from a result that a validator,
a diagnoser or `stop_on_measurement_fail` may have replaced.
-/

set_option autoImplicit false

namespace OpenHtf

open Act

/-! ## Exceptions -/

/-- The result of a phase after the handlers of these exceptions. -/
def recorded (o : PhaseExecutionOutcome) (raised : List PyExc) : PhaseExecutionOutcome :=
  raised.foldl (fun o e ↦ if o.isTerminal then o else .raised e) o

/-- The handlers catch all these exceptions, and find a result to replace. -/
def Recordable (result : Option PhaseExecutionOutcome) (raised : List PyExc) : Prop :=
  (∀ e ∈ raised, e.isException = true) ∧ (result = none → raised = [])

/-- The exception of a call of `validate`, caught or not. -/
def validationException : Except PyExc (Measurement × Option PyExc) → Option PyExc
  | .ok (_, e) => e
  | .error e => some e

/-- The exceptions of the validations in `_finalize_measurements`. -/
def validationExceptions (phaseSkipped : Bool) : List Measurement → RunState → List PyExc
  | [], _ => []
  | m :: ms, s =>
    (if m.outcome = .PARTIALLY_SET then (validationException (m.validate s).1).toList else []) ++
      validationExceptions phaseSkipped ms (finalizeMeasurement phaseSkipped m s).2

/-- The exceptions of these diagnosers, one after the other. -/
def phaseDiagnoserExceptions : List Diagnoser → RunState → List PyExc
  | [], _ => []
  | d :: ds, s =>
    (match (runDiagnoser d acceptPhaseDiagnosis s).1 with
      | .ok _ => []
      | .error e => [e]) ++
      phaseDiagnoserExceptions ds (executePhaseDiagnoser d s).2

theorem recorded_of_isTerminal {o : PhaseExecutionOutcome} (h : o.isTerminal = true)
    (raised : List PyExc) : recorded o raised = o := by
  induction raised with
  | nil => rfl
  | cons e raised ih => rwa [recorded, List.foldl_cons, if_pos h, ← recorded]

theorem isTerminal_recorded {o : PhaseExecutionOutcome} {raised : List PyExc} (h : raised ≠ []) :
    (recorded o raised).isTerminal = true := by
  cases raised with
  | nil => exact absurd rfl h
  | cons e raised =>
      rw [recorded, List.foldl_cons, ← recorded]
      split
      · rename_i ho
        rwa [recorded_of_isTerminal ho]
      · rw [recorded_of_isTerminal rfl]
        rfl

theorem recordable_append {result : Option PhaseExecutionOutcome} {raised raised' : List PyExc} :
    Recordable result (raised ++ raised') ↔
      Recordable result raised ∧ Recordable (result.map (recorded · raised)) raised' := by
  simp only [Recordable, List.mem_append, or_imp, forall_and, List.append_eq_nil_iff,
    Option.map_eq_none_iff]
  tauto

/-! ## Validations -/

def SamePhaseState (s s' : RunState) : Prop := s'.phaseState = s.phaseState

instance : Std.Refl SamePhaseState where
  refl _ := rfl

instance : IsTrans RunState SamePhaseState where
  trans _ _ _ h h' := h'.trans h

theorem samePhaseState_validate (m : Measurement) : Within SamePhaseState m.validate :=
  CallsKept.validate ⟨fun _ _ ↦ rfl, fun _ _ ↦ rfl⟩ m

/-- A validation decides the outcome of the measurement.  The exceptions that it
hands on are those that its handler catches. -/
theorem validate_outcome (m : Measurement) (s : RunState) :
    wp m.validate
      (fun r _ ↦ r.1.outcome ≠ .PARTIALLY_SET ∧ ∀ e, r.2 = some e → e.isException = true)
      (fun e _ ↦ e.isException = false) s := by
  have htrue {α : Type} (x : Exec α) (s : RunState) : wp x (fun _ _ ↦ True) (fun _ _ ↦ True) s := by
    unfold wp
    split <;> trivial
  have hhandler (e : PyExc) (s : RunState) :
      if e.isException then
        ({ m with outcome := MeasurementOutcome.FAIL }).outcome ≠ .PARTIALLY_SET ∧
          ∀ e', some e = some e' → e'.isException = true
      else e.isException = false := by
    split
    · rename_i he
      exact ⟨nofun, fun e' heq ↦ Option.some.inj heq ▸ he⟩
    · rename_i he
      exact Bool.eq_false_iff.mpr he
  rw [Measurement.validate, wp_exceptException, wp_bind]
  refine (htrue (allValid m.validators) s).mono (fun valid s₁ _ ↦ ?_) fun e s₁ _ ↦ hhandler e s₁
  rw [wp_ite]
  split
  · rw [wp_bind]
    refine (htrue (anyMarginal m.validators) s₁).mono (fun marginal s₂ _ ↦ ?_) fun e s₂ _ ↦ hhandler e s₂
    rw [wp_ite]
    split <;> exact ⟨nofun, nofun⟩
  · exact ⟨nofun, nofun⟩

/-- The handler of an exception that is caught. -/
theorem recordException_spec (e : PyExc) (s : RunState) :
    wp (recordException e)
      (fun _ s' ↦ s.result ≠ none ∧ s'.phaseState =
        { s.phaseState with phaseRecord.result := s.result.map (recorded · [e]) })
      (fun _ _ ↦ s.result = none) s := by
  simp only [recordException, wp_bind, wp_gets]
  cases hr : s.phaseState.phaseRecord.result with
  | none => exact hr
  | some result =>
      have hresult : s.result = some result := hr
      rw [hresult]
      simp only [wp_ite, wp_pure, wp_modify, recorded, List.foldl_cons, List.foldl_nil, Option.map_some]
      split
      · exact ⟨by simp, by rw [← hr]⟩
      · exact ⟨by simp, rfl⟩

/-- The phase state once the result has been replaced for these exceptions. -/
def PhaseState.recording (p : PhaseState) (raised : List PyExc) : PhaseState :=
  { p with phaseRecord.result := p.phaseRecord.result.map (recorded · raised) }

theorem PhaseState.recording_append (p : PhaseState) (raised raised' : List PyExc) :
    p.recording (raised ++ raised') = (p.recording raised).recording raised' := by
  simp [recording, recorded, Function.comp_def]

theorem PhaseState.recording_nil (p : PhaseState) : p.recording [] = p := by
  simp [recording, recorded]

/-- What becomes of a measurement that is set in part: it is validated. -/
def finalizePartly (m : Measurement) : Exec Measurement := do
  let (m, raised) ← m.validate
  match raised with
  | none => pure m
  | some e =>
    recordException e
    pure m

theorem finalizeMeasurement_spec (phaseSkipped : Bool) (m : Measurement) (s : RunState) :
    wp (finalizeMeasurement phaseSkipped m)
      (fun m' s' ↦ Recordable s.result (validationExceptions phaseSkipped [m] s) ∧
        m'.outcome ≠ .PARTIALLY_SET ∧
        s'.phaseState = s.phaseState.recording (validationExceptions phaseSkipped [m] s))
      (fun _ _ ↦ ¬Recordable s.result (validationExceptions phaseSkipped [m] s)) s := by
  by_cases hpartly : m.outcome = .PARTIALLY_SET
  · have hkept : finalizeMeasurement phaseSkipped m = finalizePartly m := by
      have hsame : (if phaseSkipped && m.outcome == .UNSET then { m with outcome := .SKIPPED } else m) = m :=
        if_neg (by simp [hpartly])
      have hset : (m.outcome == .PARTIALLY_SET) = true := beq_iff_eq.mpr hpartly
      simp only [finalizeMeasurement, hsame]
      exact if_pos hset
    rw [hkept, finalizePartly, wp_bind]
    simp only [validationExceptions, hpartly, if_true, List.append_nil]
    have hvalidate := (validate_outcome m s).and ((samePhaseState_validate m).wp s)
    rcases hv : m.validate s with ⟨e | ⟨m', raised⟩, s'⟩
    · obtain ⟨he, -⟩ := hvalidate.of_error hv
      rw [wp, hv]
      intro hrec
      simpa [he] using hrec.1 e (by simp [validationException])
    · obtain ⟨⟨ho, hcaught⟩, hphase⟩ := hvalidate.of_ok hv
      have hsame : s'.phaseState = s.phaseState := hphase
      rw [wp_eq_of_ok hv]
      cases raised with
      | none => exact ⟨⟨by simp [validationException], by simp [validationException]⟩, ho,
          by simpa [validationException, PhaseState.recording_nil] using hsame⟩
      | some e =>
          have hresult : s'.result = s.result := congrArg (·.phaseRecord.result) hsame
          have he := hcaught e rfl
          simp only [wp_bind]
          refine (recordException_spec e s').mono (fun _ s'' h ↦ ?_) fun _ _ h ↦ ?_
          · rw [hresult, hsame] at h
            refine ⟨⟨by simpa [validationException] using he, fun hnone ↦ absurd hnone h.1⟩, ho, h.2⟩
          · intro hrec
            simpa [validationException] using hrec.2 (hresult ▸ h)
  · have hkept : finalizeMeasurement phaseSkipped m = pure
        (if phaseSkipped && m.outcome == .UNSET then { m with outcome := .SKIPPED } else m) := by
      unfold finalizeMeasurement
      split <;> simp_all
    rw [hkept]
    simp only [validationExceptions, hpartly, if_false, List.nil_append]
    refine ⟨⟨by simp, by simp⟩, ?_, (PhaseState.recording_nil _).symm⟩
    split
    · simp
    · exact hpartly

theorem validationExceptions_cons (phaseSkipped : Bool) (m : Measurement) (ms : List Measurement)
    (s : RunState) :
    validationExceptions phaseSkipped (m :: ms) s = validationExceptions phaseSkipped [m] s ++
      validationExceptions phaseSkipped ms (finalizeMeasurement phaseSkipped m s).2 := by
  simp [validationExceptions]

/-- The loop over the measurements ends as soon as an exception cannot be recorded. -/
theorem finalizeMeasurementList_spec (phaseSkipped : Bool) (ms : List Measurement) (s : RunState) :
    wp (finalizeMeasurementList phaseSkipped ms)
      (fun ms' s' ↦ Recordable s.result (validationExceptions phaseSkipped ms s) ∧
        (∀ m ∈ ms', m.outcome ≠ .PARTIALLY_SET) ∧
        s'.phaseState = s.phaseState.recording (validationExceptions phaseSkipped ms s))
      (fun _ _ ↦ ¬Recordable s.result (validationExceptions phaseSkipped ms s)) s := by
  induction ms generalizing s with
  | nil => exact ⟨⟨by simp [validationExceptions], fun _ ↦ rfl⟩, by simp, (PhaseState.recording_nil _).symm⟩
  | cons m ms ih =>
      rw [validationExceptions_cons, recordable_append, PhaseState.recording_append]
      have hhead := finalizeMeasurement_spec phaseSkipped m s
      rw [finalizeMeasurementList, wp_bind]
      rcases hm : finalizeMeasurement phaseSkipped m s with ⟨e | m', s₁⟩
      · have hnot := hhead.of_error hm
        rw [wp, hm]
        exact fun h ↦ hnot h.1
      · obtain ⟨hrec, ho, hphase⟩ := hhead.of_ok hm
        have hresult : s₁.result = s.result.map (recorded · (validationExceptions phaseSkipped [m] s)) :=
          congrArg (·.phaseRecord.result) hphase
        rw [wp_eq_of_ok hm, wp_bind, ← hresult, ← hphase]
        refine (ih s₁).mono (fun ms' s₂ h ↦ ?_) fun _ _ h hboth ↦ h hboth.2
        obtain ⟨hrec', hms', hphase'⟩ := h
        refine ⟨⟨hrec, hrec'⟩, fun x hx ↦ ?_, hphase'⟩
        rcases List.mem_cons.mp hx with rfl | hx
        · exact ho
        · exact hms' x hx

/-! ## Diagnosers -/

/-- What diagnosers do not touch. -/
def PhaseState.undiagnosed (p : PhaseState) :
    Option PhaseExecutionOutcome × Option PhaseOutcome × List Measurement :=
  (p.phaseRecord.result, p.phaseRecord.outcome, p.phaseRecord.measurements)

def SameUndiagnosed (s s' : RunState) : Prop := s'.phaseState.undiagnosed = s.phaseState.undiagnosed

instance : Std.Refl SameUndiagnosed where
  refl _ := rfl

instance : IsTrans RunState SameUndiagnosed where
  trans _ _ _ h h' := h'.trans h

theorem sameUndiagnosed_accept (d : Diagnosis) : Within SameUndiagnosed (acceptPhaseDiagnosis d) := by
  have hstore : Within SameUndiagnosed (storeDiagnosis d) := fun _ ↦ rfl
  have hadd : Within SameUndiagnosed (Act.modify (RunState.mapPhaseState (·.addDiagnosis d)) : Exec Unit) := by
    intro s
    cases hf : d.isFailure <;>
      simp [SameUndiagnosed, PhaseState.undiagnosed, PhaseState.addDiagnosis, RunState.mapPhaseState, hf]
  exact .bind (fun _ ↦ rfl) fun _ ↦ .bind hadd fun _ ↦
    .ite (fun _ ↦ .bind (fun _ ↦ rfl) fun _ ↦ hstore) fun _ ↦ hstore

theorem executePhaseDiagnoser_spec (d : Diagnoser) {s : RunState} (hs : s.result ≠ none) :
    wp (executePhaseDiagnoser d)
      (fun _ s' ↦ Recordable s.result (phaseDiagnoserExceptions [d] s) ∧
        s'.phaseState.undiagnosed =
          (s.phaseState.recording (phaseDiagnoserExceptions [d] s)).undiagnosed)
      (fun _ _ ↦ ¬Recordable s.result (phaseDiagnoserExceptions [d] s)) s := by
  have hrun : Within SameUndiagnosed (runDiagnoser d acceptPhaseDiagnosis) :=
    within_runDiagnoser (fun _ _ ↦ rfl) (fun _ _ ↦ rfl) sameUndiagnosed_accept d
  have hsame := hrun s
  rw [executePhaseDiagnoser, wp_exceptException]
  simp only [phaseDiagnoserExceptions, List.append_nil]
  rcases hr : runDiagnoser d acceptPhaseDiagnosis s with ⟨e | ⟨⟩, s₁⟩
  · rw [hr] at hsame
    have hresult : s₁.result = s.result := congrArg Prod.fst hsame
    simp only [wp, hr]
    split
    · rename_i he
      refine (recordException_spec e s₁).mono (fun _ s₂ h ↦ ?_) fun _ _ h ↦ absurd (hresult.symm.trans h) hs
      refine ⟨⟨by simpa using he, fun hnone ↦ absurd hnone hs⟩, ?_⟩
      simp only [PhaseState.undiagnosed, SameUndiagnosed, Prod.mk.injEq] at hsame
      rw [h.2, hresult]
      simp only [PhaseState.undiagnosed, PhaseState.recording, Prod.mk.injEq]
      exact ⟨rfl, hsame.2⟩
    · rename_i he
      exact fun hrec ↦ he (hrec.1 e (List.mem_singleton_self e))
  · rw [hr] at hsame
    rw [wp_eq_of_ok hr, PhaseState.recording_nil]
    exact ⟨⟨by simp, by simp⟩, hsame⟩

theorem phaseDiagnoserExceptions_cons (d : Diagnoser) (ds : List Diagnoser) (s : RunState) :
    phaseDiagnoserExceptions (d :: ds) s =
      phaseDiagnoserExceptions [d] s ++ phaseDiagnoserExceptions ds (executePhaseDiagnoser d s).2 := by
  simp [phaseDiagnoserExceptions]

theorem undiagnosed_recording {p p' : PhaseState} (h : p.undiagnosed = p'.undiagnosed)
    (raised : List PyExc) : (p.recording raised).undiagnosed = (p'.recording raised).undiagnosed := by
  simp only [PhaseState.undiagnosed, Prod.mk.injEq] at h
  simp only [PhaseState.undiagnosed, PhaseState.recording, h]

theorem executePhaseDiagnoserList_spec (ds : List Diagnoser) {s : RunState} (hs : s.result ≠ none) :
    wp (executePhaseDiagnoserList ds)
      (fun _ s' ↦ Recordable s.result (phaseDiagnoserExceptions ds s) ∧
        s'.phaseState.undiagnosed = (s.phaseState.recording (phaseDiagnoserExceptions ds s)).undiagnosed)
      (fun _ _ ↦ ¬Recordable s.result (phaseDiagnoserExceptions ds s)) s := by
  induction ds generalizing s with
  | nil =>
      refine ⟨⟨by simp [phaseDiagnoserExceptions], fun _ ↦ rfl⟩, ?_⟩
      rw [phaseDiagnoserExceptions, PhaseState.recording_nil]
  | cons d ds ih =>
      rw [phaseDiagnoserExceptions_cons, recordable_append, PhaseState.recording_append]
      have hhead := executePhaseDiagnoser_spec d hs
      rw [executePhaseDiagnoserList, wp_bind]
      rcases hd : executePhaseDiagnoser d s with ⟨e | ⟨⟩, s₁⟩
      · have hnot := hhead.of_error hd
        rw [wp, hd]
        exact fun h ↦ hnot h.1
      · obtain ⟨hrec, hphase⟩ := hhead.of_ok hd
        have hresult : s₁.result = s.result.map (recorded · (phaseDiagnoserExceptions [d] s)) :=
          congrArg Prod.fst hphase
        have hs₁ : s₁.result ≠ none := by rwa [hresult, ne_eq, Option.map_eq_none_iff]
        rw [wp_eq_of_ok hd, ← hresult]
        refine (ih hs₁).mono (fun _ s₂ h ↦ ?_) fun _ _ h hboth ↦ h hboth.2
        exact ⟨⟨hrec, h.1⟩, h.2.trans (undiagnosed_recording hphase _)⟩

/-! ## The classification -/

/-- What the validators of the partially set measurements raise at the end. -/
def raisedByValidators (s : RunState) : List PyExc :=
  validationExceptions (s.result.any (·.isSkip)) s.phaseState.measurements s

/-- The state in which the diagnosers run. -/
def atDiagnosers (env : Env) (s : RunState) : RunState :=
  (finalizeMeasurements s).2.mapPhaseState (·.setPrediagnosisPhaseOutcome env.conf)

def raisedByPhaseDiagnosers (s : RunState) : List PyExc :=
  match s.result with
  | none => []
  | some result =>
    if result.isAborted || result.isRepeat || result.isSkip then []
    else phaseDiagnoserExceptions s.phaseState.diagnosers s

def raisedByDiagnosers (env : Env) (s : RunState) : List PyExc :=
  raisedByPhaseDiagnosers (atDiagnosers env s)

/-- The measurement failed, is unset while that is not allowed, or is partially set. -/
def Measurement.isBad (conf : Conf) (m : Measurement) : Bool :=
  m.outcome == .FAIL && !m.allowFail || m.outcome == .UNSET && !conf.allowUnsetMeasurements ||
    m.outcome == .PARTIALLY_SET

/-- There is no result, or the phase raised, timed out, was killed or returned STOP,
or the repeat limit was hit, or a validator or a diagnoser raised. -/
def endsInError (env : Env) (s : RunState) : Bool :=
  s.result.isNone || s.result.any (·.isTerminal) || s.phaseState.hitRepeatLimit ||
    !(raisedByValidators s).isEmpty || !(raisedByDiagnosers env s).isEmpty

def endsSkipped (s : RunState) : Bool := s.result.any fun o ↦ o.isRepeat || o.isSkip

def endsFailed (env : Env) (s s' : RunState) : Bool :=
  s.result.any (fun o ↦ o.isFailAndContinue || o.isFailSubtest) ||
    s'.phaseState.phaseRecord.measurements.any (·.isBad env.conf) ||
    !s'.phaseState.phaseRecord.failureDiagnosisResults.isEmpty

/-- The class of a phase whose end began in the state `s` and led to `s'`. -/
def classification (env : Env) (s s' : RunState) : PhaseOutcome :=
  if endsInError env s then .ERROR
  else if endsSkipped s then .SKIP
  else if endsFailed env s s' then .FAIL
  else .PASS

/-- The end of the phase returns, and the outcome of its record is its class. -/
def ClassifiesOutcome (env : Env) (s : RunState) : Prop :=
  wp (finalizePhase env)
    (fun _ s' ↦ s'.phaseState.phaseRecord.outcome = some (classification env s s'))
    (fun _ _ ↦ False) s

/-- Nothing is wrong with the phase but a measurement, and it is to stop for that. -/
def StopsOnMeasurement (env : Env) (s : RunState) : Prop :=
  s.phaseState.options.stopOnMeasurementFail = true ∧ s.result = some (.result .CONTINUE) ∧
    s.phaseState.hitRepeatLimit = false ∧ raisedByValidators s = [] ∧ raisedByDiagnosers env s = [] ∧
    (atDiagnosers env s).phaseState.phaseRecord.measurements.any (·.isBad env.conf) = true

theorem finalizeMeasurements_spec (s : RunState) :
    wp finalizeMeasurements
      (fun _ s' ↦ Recordable s.result (raisedByValidators s) ∧
        s'.result = s.result.map (recorded · (raisedByValidators s)) ∧
        s'.phaseState.hitRepeatLimit = s.phaseState.hitRepeatLimit ∧
        s'.phaseState.options = s.phaseState.options)
      (fun _ _ ↦ ¬Recordable s.result (raisedByValidators s)) s := by
  simp only [finalizeMeasurements, wp_bind, wp_gets, wp_modify]
  refine (finalizeMeasurementList_spec _ _ s).mono (fun ms s₁ h ↦ ?_) fun _ _ h ↦ h
  obtain ⟨hrec, -, hphase⟩ := h
  refine ⟨hrec, ?_, ?_, ?_⟩
  · exact congrArg (·.phaseRecord.result) hphase
  · exact congrArg (·.hitRepeatLimit) hphase
  · exact congrArg (·.options) hphase

theorem executePhaseDiagnosers_spec (s : RunState) :
    wp executePhaseDiagnosers
      (fun _ s' ↦ (∀ e ∈ raisedByPhaseDiagnosers s, e.isException = true) ∧
        s'.phaseState.undiagnosed = (s.phaseState.recording (raisedByPhaseDiagnosers s)).undiagnosed)
      (fun _ _ ↦ ¬∀ e ∈ raisedByPhaseDiagnosers s, e.isException = true) s := by
  simp only [executePhaseDiagnosers, wp_bind, wp_gets]
  have hquiet : raisedByPhaseDiagnosers s = [] → (∀ e ∈ raisedByPhaseDiagnosers s, e.isException = true) ∧
      s.phaseState.undiagnosed = (s.phaseState.recording (raisedByPhaseDiagnosers s)).undiagnosed := by
    intro hnil
    rw [hnil, PhaseState.recording_nil]
    exact ⟨by simp, rfl⟩
  cases hr : s.phaseState.phaseRecord.result with
  | none => exact hquiet (by simp [raisedByPhaseDiagnosers, RunState.result, hr])
  | some result =>
      have hresult : s.result = some result := hr
      simp only [wp_ite, wp_pure, wp_bind, wp_gets]
      split
      · rename_i hskips
        exact hquiet (by simp [raisedByPhaseDiagnosers, hresult, hskips])
      · rename_i hskips
        have hraised : raisedByPhaseDiagnosers s = phaseDiagnoserExceptions s.phaseState.diagnosers s := by
          simp only [raisedByPhaseDiagnosers, hresult]
          rw [if_neg hskips]
        have hsome : s.result ≠ none := by rw [hresult]; nofun
        rw [hraised]
        refine (executePhaseDiagnoserList_spec _ hsome).mono (fun _ s' h ↦ ⟨h.1.1, h.2⟩) fun _ _ h hall ↦ ?_
        exact h ⟨hall, fun hnone ↦ absurd hnone hsome⟩

/-! ### The outcome before and after the diagnosers -/

theorem measurementsPass_eq (conf : Conf) (p : PhaseState) :
    p.measurementsPass conf = !p.phaseRecord.measurements.any (·.isBad conf) := by
  rw [PhaseState.measurementsPass, List.not_any_eq_all_not]
  congr 1
  funext m
  cases ho : m.outcome <;> simp only [Measurement.isBad, ho] <;>
    cases m.allowFail <;> cases conf.allowUnsetMeasurements <;> rfl

theorem measurements_setPrediagnosis (conf : Conf) (p : PhaseState) :
    (p.setPrediagnosisPhaseOutcome conf).phaseRecord.measurements = p.phaseRecord.measurements := by
  unfold PhaseState.setPrediagnosisPhaseOutcome
  split
  · rfl
  · dsimp only
    split_ifs <;> rfl

/-- The branch that replaces the result by STOP. -/
def PhaseState.stopsOnMeasurement (conf : Conf) (p : PhaseState) (o : PhaseExecutionOutcome) : Bool :=
  o == .result .CONTINUE && !p.hitRepeatLimit && p.phaseRecord.measurements.any (·.isBad conf) &&
    p.options.stopOnMeasurementFail

theorem prediagnosis_eq (conf : Conf) {p : PhaseState} {o : PhaseExecutionOutcome}
    (hr : p.phaseRecord.result = some o) :
    (p.setPrediagnosisPhaseOutcome conf).phaseRecord.outcome = some
        (if o.isTerminal || p.hitRepeatLimit then .ERROR
        else if o.isRepeat || o.isSkip then .SKIP
        else if o.isFailAndContinue || o.isFailSubtest || p.phaseRecord.measurements.any (·.isBad conf) then
          .FAIL
        else .PASS) ∧
      (p.setPrediagnosisPhaseOutcome conf).phaseRecord.result =
        some (if p.stopsOnMeasurement conf o then .result .STOP else o) := by
  obtain ⟨record, measurements, options, diagnosers, hit⟩ := p
  dsimp only at hr
  simp only [PhaseState.setPrediagnosisPhaseOutcome, hr, measurementsPass_eq, Bool.not_not,
    PhaseState.stopsOnMeasurement]
  cases hit with
  | true => simp [PhaseState.setOutcome, hr]
  | false =>
      rcases o with _ | r | e | _
      · exact ⟨rfl, hr⟩
      · cases r with
        | CONTINUE =>
            simp only [PhaseExecutionOutcome.isTerminal, PhaseExecutionOutcome.raisedException,
              PhaseExecutionOutcome.isTimeout, PhaseExecutionOutcome.isRepeat, PhaseExecutionOutcome.isSkip,
              PhaseExecutionOutcome.isFailSubtest, PhaseExecutionOutcome.isFailAndContinue]
            by_cases hbad : record.measurements.any (·.isBad conf) = true
            · by_cases hstop : options.stopOnMeasurementFail = true <;>
                simp [hbad, hstop, PhaseState.setOutcome, PhaseState.setResult, hr]
            · simp [hbad]
        | FAIL_AND_CONTINUE | REPEAT | SKIP | STOP | FAIL_SUBTEST => exact ⟨rfl, hr⟩
      · exact ⟨rfl, hr⟩
      · exact ⟨rfl, hr⟩

theorem postdiagnosis_eq {p : PhaseState} {o : PhaseOutcome} {r : PhaseExecutionOutcome}
    (ho : p.phaseRecord.outcome = some o) (hr : p.phaseRecord.result = some r) :
    p.setPostdiagnosisPhaseOutcome.phaseRecord.outcome = some
      (if o = .ERROR ∨ r.isTerminal = true then .ERROR
      else if o = .PASS ∧ p.phaseRecord.failureDiagnosisResults ≠ [] then .FAIL
      else o) := by
  simp only [PhaseState.setPostdiagnosisPhaseOutcome, ho, hr, Option.all_some]
  by_cases herror : o = .ERROR
  · simp [herror, ho]
  by_cases hterminal : r.isTerminal = true
  · simp [herror, hterminal, PhaseState.setOutcome]
  by_cases hpass : o = .PASS
  · by_cases hfailure : p.phaseRecord.failureDiagnosisResults = []
    · simp [hterminal, hpass, hfailure, ho]
    · simp [hterminal, hpass, hfailure, PhaseState.setOutcome]
  · simp [herror, hterminal, hpass, ho]

theorem record_setPostdiagnosis (p : PhaseState) :
    p.setPostdiagnosisPhaseOutcome.phaseRecord.measurements = p.phaseRecord.measurements ∧
      p.setPostdiagnosisPhaseOutcome.phaseRecord.failureDiagnosisResults =
        p.phaseRecord.failureDiagnosisResults := by
  unfold PhaseState.setPostdiagnosisPhaseOutcome
  split_ifs <;> exact ⟨rfl, rfl⟩

theorem failure_of_isBad {env : Env} {s s' : RunState} {o : PhaseExecutionOutcome}
    (hr : s.result = some o) :
    endsFailed env s s' = (o.isFailAndContinue || o.isFailSubtest ||
      s'.phaseState.phaseRecord.measurements.any (·.isBad env.conf) ||
      !s'.phaseState.phaseRecord.failureDiagnosisResults.isEmpty) := by
  rw [endsFailed, hr, Option.any_some]

/-- When no validator raised, the class is what is set before the diagnosers and then
corrected after them. -/
theorem classification_eq {env : Env} {s s' : RunState} {o : PhaseExecutionOutcome} {before : PhaseOutcome}
    (hr : s.result = some o) (hvalid : raisedByValidators s = [])
    (hbefore : before = if o.isTerminal || s.phaseState.hitRepeatLimit then .ERROR
      else if o.isRepeat || o.isSkip then .SKIP
      else if o.isFailAndContinue || o.isFailSubtest ||
        s'.phaseState.phaseRecord.measurements.any (·.isBad env.conf) then .FAIL
      else .PASS) :
    classification env s s' =
      if before = .ERROR ∨ (recorded o (raisedByDiagnosers env s)).isTerminal = true then .ERROR
      else if before = .PASS ∧ s'.phaseState.phaseRecord.failureDiagnosisResults ≠ [] then .FAIL
      else before := by
  subst hbefore
  simp only [classification, endsInError, endsSkipped, failure_of_isBad hr, hr, hvalid]
  by_cases hdiag : raisedByDiagnosers env s = []
  · rw [hdiag, show recorded o [] = o from rfl]
    by_cases hterminal : o.isTerminal = true
    · simp [hterminal]
    by_cases hlimit : s.phaseState.hitRepeatLimit = true
    · simp [hlimit]
    by_cases hskip : (o.isRepeat || o.isSkip) = true
    · simp [hterminal, hlimit, hskip]
    by_cases hfail : (o.isFailAndContinue || o.isFailSubtest ||
        s'.phaseState.phaseRecord.measurements.any (·.isBad env.conf)) = true
    · simp [hterminal, hlimit, hskip, hfail]
    · by_cases hfailures : s'.phaseState.phaseRecord.failureDiagnosisResults = [] <;>
        simp [hterminal, hlimit, hskip, hfail, hfailures]
  · have hterminal := isTerminal_recorded (o := o) hdiag
    simp [hterminal, hdiag]

/-- The class of a phase in which nothing but a measurement, and perhaps a diagnoser, is wrong. -/
theorem classification_of_isBad {env : Env} {s s' : RunState} (hr : s.result = some (.result .CONTINUE))
    (hvalid : raisedByValidators s = []) (hnohit : s.phaseState.hitRepeatLimit = false)
    (hany : s'.phaseState.phaseRecord.measurements.any (·.isBad env.conf) = true) :
    classification env s s' = if raisedByDiagnosers env s = [] then .FAIL else .ERROR := by
  simp only [classification, endsInError, endsSkipped, failure_of_isBad hr, hr, hvalid, hnohit, hany]
  cases raisedByDiagnosers env s <;> rfl

/-- The outcome in which a phase ends, from the states around its diagnosers. -/
theorem outcome_eq_classification_iff {env : Env} {s s₁ s' : RunState} {p : PhaseState}
    (hresult : s₁.result = s.result.map (recorded · (raisedByValidators s)))
    (hhit : s₁.phaseState.hitRepeatLimit = s.phaseState.hitRepeatLimit)
    (hoptions : s₁.phaseState.options = s.phaseState.options)
    (hat : atDiagnosers env s = s₁.mapPhaseState (·.setPrediagnosisPhaseOutcome env.conf))
    (hp : p.undiagnosed =
      ((atDiagnosers env s).phaseState.recording (raisedByDiagnosers env s)).undiagnosed)
    (hmeasurements : s'.phaseState.phaseRecord.measurements = p.phaseRecord.measurements)
    (hfailures : s'.phaseState.phaseRecord.failureDiagnosisResults =
      p.phaseRecord.failureDiagnosisResults) :
    p.setPostdiagnosisPhaseOutcome.phaseRecord.outcome = some (classification env s s') ↔
      ¬StopsOnMeasurement env s := by
  have hphase : (atDiagnosers env s).phaseState =
      s₁.phaseState.setPrediagnosisPhaseOutcome env.conf := by rw [hat]; rfl
  simp only [PhaseState.undiagnosed, PhaseState.recording, Prod.mk.injEq] at hp
  obtain ⟨hpresult, hpoutcome, hpmeasurements⟩ := hp
  have hbad : s'.phaseState.phaseRecord.measurements = s₁.phaseState.phaseRecord.measurements := by
    rw [hmeasurements, hpmeasurements, hphase, measurements_setPrediagnosis]
  rw [hphase] at hpresult hpoutcome
  cases hr : s.result with
  | none =>
      have hnone : s₁.phaseState.phaseRecord.result = none := by
        rw [hr, Option.map_none] at hresult
        exact hresult
      have herror : p.phaseRecord.outcome = some .ERROR := by
        rw [hpoutcome, PhaseState.setPrediagnosisPhaseOutcome, hnone]
        rfl
      have hclass : classification env s s' = .ERROR := by simp [classification, endsInError, hr]
      refine iff_of_true ?_ fun h ↦ ?_
      · simp [PhaseState.setPostdiagnosisPhaseOutcome, herror, hclass]
      · simpa [hr] using h.2.1
  | some o =>
      have hresult₁ : s₁.phaseState.phaseRecord.result = some (recorded o (raisedByValidators s)) := by
        rw [hr, Option.map_some] at hresult
        exact hresult
      obtain ⟨hqoutcome, hqresult⟩ := prediagnosis_eq env.conf hresult₁
      rw [hqresult, Option.map_some] at hpresult
      rw [hqoutcome, hhit] at hpoutcome
      rw [postdiagnosis_eq hpoutcome hpresult]
      by_cases hvalid : raisedByValidators s = []
      · rw [hvalid, show recorded o [] = o from rfl]
        by_cases hstop : s₁.phaseState.stopsOnMeasurement env.conf o = true
        · -- The result is STOP, and the outcome is ERROR whatever the diagnosers do.
          simp only [PhaseState.stopsOnMeasurement, Bool.and_eq_true, beq_iff_eq, Bool.not_eq_true'] at hstop
          obtain ⟨⟨⟨rfl, hnohit⟩, hany⟩, hoption⟩ := hstop
          rw [hhit] at hnohit
          rw [hoptions] at hoption
          have hanyat : (atDiagnosers env s).phaseState.phaseRecord.measurements.any (·.isBad env.conf) =
              true := by rw [hphase, measurements_setPrediagnosis]; exact hany
          have hterminal : (recorded (.result .STOP) (raisedByDiagnosers env s)).isTerminal = true := by
            rw [recorded_of_isTerminal rfl]
            rfl
          have hclass := classification_of_isBad hr hvalid hnohit (hbad.symm ▸ hany)
          have hclosed : s₁.phaseState.stopsOnMeasurement env.conf (.result .CONTINUE) = true := by
            simp [PhaseState.stopsOnMeasurement, hhit, hnohit, hany, hoptions, hoption]
          simp only [hclosed, if_true, hterminal, or_true, hclass, Option.some.injEq]
          by_cases hdiag : raisedByDiagnosers env s = []
          · refine iff_of_false (by simp [hdiag]) fun hnot ↦ ?_
            exact hnot ⟨hoption, hr, hnohit, hvalid, hdiag, hanyat⟩
          · exact iff_of_true (by simp [hdiag]) fun h ↦ hdiag h.2.2.2.2.1
        · have hnot : ¬StopsOnMeasurement env s := by
            rintro ⟨hoption, hcontinue, hnohit, -, -, hany⟩
            obtain rfl : o = .result .CONTINUE := Option.some.inj (hr.symm.trans hcontinue)
            rw [hphase, measurements_setPrediagnosis] at hany
            simp [PhaseState.stopsOnMeasurement, hhit, hnohit, hany, hoptions, hoption] at hstop
          refine iff_of_true ?_ hnot
          rw [if_neg hstop, Option.some.injEq, ← hfailures]
          exact (classification_eq hr hvalid (by rw [hbad])).symm
      · -- An exception of a validator is the result.
        have hterminal := isTerminal_recorded (o := o) hvalid
        have hclass : classification env s s' = .ERROR := by
          simp [classification, endsInError, hvalid]
        refine iff_of_true ?_ fun h ↦ hvalid h.2.2.2.1
        simp [hterminal, hclass]

/-! ### The result and the outcome together -/

theorem recorded_eq_of_not_isTerminal {o : PhaseExecutionOutcome} {raised : List PyExc}
    (h : (recorded o raised).isTerminal ≠ true) : recorded o raised = o := by
  by_cases hnil : raised = []
  · rw [hnil]
    rfl
  · exact absurd (isTerminal_recorded hnil) h

/-- A record that was finished with the result `o` of its phase: a repeated phase has
the outcome SKIP unless the limit was hit, and one that failed is not repeated. -/
structure EndsWith (o : PhaseExecutionOutcome) (hitRepeatLimit : Bool) (r : PhaseRecord) : Prop where
  result : ∃ o', r.result = some o' ∧ ResultFrom o o'
  repeated : hitRepeatLimit = false → r.result = some (.result .REPEAT) → r.outcome = some .SKIP
  failed : r.outcome = some .FAIL → r.result ≠ some .timeout ∧ r.result ≠ some (.result .REPEAT)

/-- How the outcome that is set after the diagnosers fits the result. -/
theorem outcome_of_result {conf : Conf} {p₁ p : PhaseState} {o : PhaseExecutionOutcome}
    {raised : List PyExc} (hr : p₁.phaseRecord.result = some o)
    (houtcome : p.phaseRecord.outcome = (p₁.setPrediagnosisPhaseOutcome conf).phaseRecord.outcome)
    (hresult : p.phaseRecord.result =
      (p₁.setPrediagnosisPhaseOutcome conf).phaseRecord.result.map (recorded · raised)) :
    (p₁.hitRepeatLimit = false →
      p.setPostdiagnosisPhaseOutcome.phaseRecord.result = some (.result .REPEAT) →
      p.setPostdiagnosisPhaseOutcome.phaseRecord.outcome = some .SKIP) ∧
    (p.setPostdiagnosisPhaseOutcome.phaseRecord.outcome = some .FAIL →
      p.setPostdiagnosisPhaseOutcome.phaseRecord.result ≠ some .timeout ∧
        p.setPostdiagnosisPhaseOutcome.phaseRecord.result ≠ some (.result .REPEAT)) := by
  obtain ⟨hpre, hpreresult⟩ := prediagnosis_eq conf hr
  rw [hpre] at houtcome
  rw [hpreresult, Option.map_some] at hresult
  rw [PhaseState.result_setPostdiagnosisPhaseOutcome, postdiagnosis_eq houtcome hresult, hresult]
  -- A result that is not terminal is the one that the phase began its end with.
  have hsame : ∀ r, recorded (if p₁.stopsOnMeasurement conf o then .result .STOP else o) raised = r →
      r.isTerminal ≠ true → r = o := by
    rintro r rfl hnot
    have hbefore := recorded_eq_of_not_isTerminal hnot
    rw [hbefore] at hnot ⊢
    split at hnot
    · exact absurd rfl hnot
    · rename_i hstop
      rw [if_neg hstop]
  constructor
  · intro hhit hrepeat
    have hrepeat := Option.some.inj hrepeat
    obtain rfl := hsame _ hrepeat (by decide)
    rw [hrepeat, hhit]
    rfl
  · intro hfail
    generalize hx : recorded (if p₁.stopsOnMeasurement conf o then .result .STOP else o) raised = x at *
    have hnot : x.isTerminal ≠ true := by
      intro hterminal
      simp [hterminal] at hfail
    obtain rfl := hsame x rfl hnot
    refine ⟨fun htimeout ↦ hnot (Option.some.inj htimeout ▸ rfl), fun hrepeat ↦ ?_⟩
    obtain rfl : x = .result .REPEAT := Option.some.inj hrepeat
    have hrepeats : (PhaseExecutionOutcome.result .REPEAT).isRepeat = true := rfl
    cases hlimit : p₁.hitRepeatLimit <;> simp [hlimit, hnot, hrepeats] at hfail

theorem finalizePhase_endsWith {env : Env} {s : RunState} {o : PhaseExecutionOutcome}
    (hr : s.result = some o) :
    wp (finalizePhase env)
      (fun _ s' ↦ EndsWith o s.phaseState.hitRepeatLimit s'.phaseState.phaseRecord)
      (fun _ _ ↦ True) s := by
  have hframe := (endFrame_finalizePhase env).wp s
  simp only [finalizePhase, timeMillis, wp_bind, wp_modify, wp_callUser] at hframe ⊢
  have hmeasurements := finalizeMeasurements_spec s
  rcases hf : finalizeMeasurements s with ⟨e | ⟨⟩, s₁⟩
  · rw [wp, hf]
    trivial
  obtain ⟨-, hresult, hhit, -⟩ := hmeasurements.of_ok hf
  rw [wp_eq_of_ok hf] at hframe ⊢
  have hdiagnosers := executePhaseDiagnosers_spec
    (s₁.mapPhaseState (·.setPrediagnosisPhaseOutcome env.conf))
  rcases hd : executePhaseDiagnosers (s₁.mapPhaseState (·.setPrediagnosisPhaseOutcome env.conf)) with
    ⟨e | ⟨⟩, s₂⟩
  · rw [wp, hd]
    trivial
  obtain ⟨-, hphase⟩ := hdiagnosers.of_ok hd
  rw [wp_eq_of_ok hd] at hframe ⊢
  obtain ⟨o', ho', hfrom⟩ := hframe.result o hr
  have hresult₁ : s₁.phaseState.phaseRecord.result = some (recorded o (raisedByValidators s)) := by
    rw [hr, Option.map_some] at hresult
    exact hresult
  simp only [PhaseState.undiagnosed, PhaseState.recording, Prod.mk.injEq] at hphase
  obtain ⟨hpresult, hpoutcome, -⟩ := hphase
  obtain ⟨hrepeated, hfailed⟩ := outcome_of_result hresult₁ hpoutcome hpresult
  rw [hhit] at hrepeated
  exact ⟨⟨o', ho', hfrom⟩, hrepeated, hfailed⟩

theorem classifiesOutcome_iff (env : Env) (s : RunState) :
    ClassifiesOutcome env s ↔ Recordable s.result (raisedByValidators s) ∧
      (∀ e ∈ raisedByDiagnosers env s, e.isException = true) ∧ ¬StopsOnMeasurement env s := by
  simp only [ClassifiesOutcome, finalizePhase, timeMillis, wp_bind, wp_modify, wp_callUser]
  have hmeasurements := finalizeMeasurements_spec s
  rcases hf : finalizeMeasurements s with ⟨e | ⟨⟩, s₁⟩
  · rw [wp, hf]
    exact iff_of_false id fun h ↦ hmeasurements.of_error hf h.1
  obtain ⟨hrec, hresult, hhit, hoptions⟩ := hmeasurements.of_ok hf
  have hat : atDiagnosers env s = s₁.mapPhaseState (·.setPrediagnosisPhaseOutcome env.conf) := by
    rw [atDiagnosers, hf]
  rw [wp_eq_of_ok hf, and_iff_right hrec, ← hat]
  have hdiagnosers := executePhaseDiagnosers_spec (atDiagnosers env s)
  rcases hd : executePhaseDiagnosers (atDiagnosers env s) with ⟨e | ⟨⟩, s₂⟩
  · rw [wp, hd]
    exact iff_of_false id fun h ↦ hdiagnosers.of_error hd h.1
  obtain ⟨hcaught, hphase⟩ := hdiagnosers.of_ok hd
  rw [wp_eq_of_ok hd]
  refine Iff.trans ?_ (and_iff_right hcaught).symm
  exact outcome_eq_classification_iff hresult hhit hoptions hat hphase
    (record_setPostdiagnosis s₂.phaseState).1 (record_setPostdiagnosis s₂.phaseState).2

/-- The end of a phase whose measurement failed, and which is to stop for that. -/
def failedMeasurement : RunState where
  phaseState :=
    { phaseRecord := { descriptorId := 0, name := "measure", result := some (.result .CONTINUE) }
      measurements := [{ name := "voltage", outcome := .FAIL }]
      options := { stopOnMeasurementFail := true } }

/-- The outcome is ERROR, and nothing but the measurement is wrong. -/
theorem not_classifiesOutcome_stopped : ¬ClassifiesOutcome {} failedMeasurement := by
  intro h
  have herror : ((finalizePhase {} failedMeasurement).2.phaseState.phaseRecord.outcome) = some .ERROR := by
    decide +kernel
  have hfail : classification {} failedMeasurement (finalizePhase {} failedMeasurement).2 = .FAIL := by
    decide +kernel
  have hclass : (finalizePhase {} failedMeasurement).2.phaseState.phaseRecord.outcome =
      some (classification {} failedMeasurement (finalizePhase {} failedMeasurement).2) :=
    wp_same.mp (wp.mono h (fun _ _ hc ↦ hc) fun _ _ ↦ False.elim)
  rw [herror, hfail] at hclass
  cases hclass

end OpenHtf
