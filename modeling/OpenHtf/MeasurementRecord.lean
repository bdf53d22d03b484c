import OpenHtf.Measurements
import OpenHtf.PhaseFrame

/-!
# What the executor keeps of a measurement

The executor's `Measurement` knows of the value only what the validators answer
about it.  Its `validate` and its finalisation do to it what those of the
measurement itself do to the measurement.
-/

set_option autoImplicit false

namespace OpenHtf.Measurements

open Act

variable {κ Value Base : Type} (str : AnyMeasuredValue κ Value Base → String)

/-- A validator as it answers when it is asked about what `value` gives. -/
def Validator.on (x : Except PyExc (Measured κ Value)) (v : Validator κ Value) : OpenHtf.Validator where
  text := v.text
  call t := x.bind (v.call t)
  isMarginal := v.isMarginal.map fun isMarginal t ↦ x.bind (isMarginal t)

/-- The measurement of the executor; `str` is that of the measured values. -/
def Measurement.record (m : Measurement κ Value Base) : OpenHtf.Measurement where
  name := m.name
  dimensions := m.dimensions.length
  validators := m.validators.map (·.on m.measuredValue.value)
  conditionalValidators := m.conditionalValidators.map fun cv ↦ (cv.1, cv.2.on m.measuredValue.value)
  allowFail := m.allowFail
  measuredValue := str m.measuredValue
  outcome := m.outcome
  marginal := m.marginal

/-- A statement of the measurement and one of the executor return the same, and
have made the same number of calls, or raise the same. -/
def Answers {α : Type} (x : Stmt κ Value Base α) (y : Exec α) (s : Measuring κ Value Base)
    (r : RunState) : Prop :=
  wp x
    (fun a s' ↦ s'.measurement = s.measurement ∧ ∃ r', y r = (.ok a, r') ∧ r'.moment = s'.moment)
    (fun e s' ↦ s'.measurement = s.measurement ∧ ∃ r', y r = (.error e, r')) s

section Validators

variable {x : Except PyExc (Measured κ Value)}

/-- The answer to one question, by how `value` and the answer come out. -/
theorem callRaising_on {f : ℕ → Measured κ Value → Except PyExc Bool} (r : RunState) :
    (OpenHtf.callRaising fun t ↦ x.bind (f t)) r =
      match x.bind (f r.moment) with
      | .ok b => (.ok b, { r with moment := r.moment + 1 })
      | .error e => (.error e, { r with moment := r.moment + 1, steps := r.steps ++ [.raised e] }) := by
  simp only [OpenHtf.callRaising, callUser, bind_apply, andThen]
  cases x.bind (f r.moment) <;> rfl

theorem answers_allValid (vs : List (Validator κ Value)) {s : Measuring κ Value Base} {r : RunState}
    (hx : s.measurement.measuredValue.value = x) (hr : r.moment = s.moment) :
    Answers (allValid vs) (OpenHtf.allValid (vs.map (·.on x))) s r := by
  induction vs generalizing s r with
  | nil => exact ⟨rfl, r, rfl, hr⟩
  | cons v vs ih =>
      simp only [Answers, allValid, OpenHtf.allValid, List.map_cons, wp_bind, wp_gets, hx, wp_liftExcept,
        bind_apply]
      rw [show (v.on x).call = fun t ↦ x.bind (v.call t) from rfl, callRaising_on]
      cases x with
      | error e => exact ⟨rfl, _, rfl⟩
      | ok x =>
          simp only [callRaising, wp_bind, wp_callAt, wp_liftExcept, Except.bind, hr]
          cases hcall : v.call s.moment x with
          | error e => exact ⟨rfl, _, rfl⟩
          | ok b =>
              cases b with
              | false => exact ⟨rfl, _, rfl, rfl⟩
              | true =>
                  simp only [if_true, andThen]
                  exact ih hx rfl

theorem answers_anyMarginal (vs : List (Validator κ Value)) {s : Measuring κ Value Base}
    {r : RunState} (hx : s.measurement.measuredValue.value = x) (hr : r.moment = s.moment) :
    Answers (anyMarginal vs) (OpenHtf.anyMarginal (vs.map (·.on x))) s r := by
  induction vs generalizing s r with
  | nil => exact ⟨rfl, r, rfl, hr⟩
  | cons v vs ih =>
      cases hv : v.isMarginal with
      | none =>
          simp only [Answers, anyMarginal, OpenHtf.anyMarginal, List.map_cons, hv, Validator.on,
            Option.map_none]
          exact ih hx hr
      | some isMarginal =>
          simp only [Answers, anyMarginal, OpenHtf.anyMarginal, List.map_cons, hv, Validator.on,
            Option.map_some, wp_bind, wp_gets, hx, wp_liftExcept, bind_apply]
          rw [callRaising_on]
          cases x with
          | error e => exact ⟨rfl, _, rfl⟩
          | ok x =>
              simp only [callRaising, wp_bind, wp_callAt, wp_liftExcept, Except.bind, hr]
              cases hcall : isMarginal s.moment x with
              | error e => exact ⟨rfl, _, rfl⟩
              | ok b =>
                  cases b with
                  | true => exact ⟨rfl, _, rfl, rfl⟩
                  | false =>
                      simp only [Bool.false_eq_true, if_false, andThen]
                      exact ih hx rfl

end Validators

/-- `validate` of the executor's measurement does what that of the measurement does. -/
theorem record_validate (str : AnyMeasuredValue κ Value Base → String) {s : Measuring κ Value Base}
    {r : RunState} (hr : r.moment = s.moment) :
    wp validate
      (fun _ s' ↦ ((s.measurement.record str).validate r).1 = .ok (s'.measurement.record str, none))
      (fun e s' ↦ ((s.measurement.record str).validate r).1 =
        if e.isException then .ok (s'.measurement.record str, some e) else .error e) s := by
  have hvs : (s.measurement.record str).validators =
      s.measurement.validators.map (·.on s.measurement.measuredValue.value) := rfl
  rw [validate, wp_finally]
  -- The patch of the cached dict is not seen through `record`.
  suffices hbody : wp _
      (fun _ s' ↦ ((s.measurement.record str).validate r).1 = .ok (s'.measurement.record str, none))
      (fun e s' ↦ ((s.measurement.record str).validate r).1 =
        if e.isException then .ok (s'.measurement.record str, some e) else .error e) s from hbody
  simp only [wp_catching, wp_bind, wp_gets]
  have hhandler : ∀ (e : PyExc) (o : MeasurementOutcome) (s' : Measuring κ Value Base),
      s'.measurement = { s.measurement with outcome := o } →
      (∃ r', ((s.measurement.record str).validate r) =
        (if e.isException then .ok ({ s.measurement.record str with outcome := .FAIL }, some e)
          else .error e, r')) →
      wp (do
          if e.isException then setOutcome .FAIL
          Act.raise e : Stmt κ Value Base Unit)
        (fun _ s' ↦ ((s.measurement.record str).validate r).1 = .ok (s'.measurement.record str, none))
        (fun e s' ↦ ((s.measurement.record str).validate r).1 =
          if e.isException then .ok (s'.measurement.record str, some e) else .error e) s' := by
    rintro e o s' hs' ⟨r', hr'⟩
    rw [hr']
    simp only [setOutcome, wp_ite, wp_bind, wp_modify, wp_raise]
    cases he : e.isException with
    | true =>
        simp only [if_true, Measuring.map, hs']
        rfl
    | false => simp
  refine (answers_allValid _ rfl hr).mono (fun valid s₁ h₁ ↦ ?_) fun e s₁ h₁ ↦ ?_
  · obtain ⟨hs₁, r₁, hr₁, hmoment⟩ := h₁
    cases valid with
    | false =>
        simp only [OpenHtf.Measurement.validate, exceptException, Act.catching, hvs, bind_apply, hr₁,
          andThen, Bool.false_eq_true, if_false, setOutcome, wp_modify, Measuring.map, hs₁]
        rfl
    | true =>
        simp only [if_true, setOutcome, wp_bind, wp_modify]
        let passed := s₁.map fun m ↦ { m with outcome := .PASS }
        have hpassed : passed.measurement = { s.measurement with outcome := .PASS } := by
          simp only [passed, Measuring.map, hs₁]
        have hvalue : passed.measurement.measuredValue.value = s.measurement.measuredValue.value := by
          rw [hpassed]
        refine (answers_anyMarginal (s := passed) _ hvalue hmoment).mono (fun b s₂ h₂ ↦ ?_)
          fun e s₂ h₂ ↦ ?_
        · obtain ⟨hs₂, r₂, hr₂, -⟩ := h₂
          rw [hpassed] at hs₂
          simp only [OpenHtf.Measurement.validate, exceptException, Act.catching, hvs, bind_apply, hr₁,
            andThen, if_true, hr₂]
          cases b with
          | true =>
              simp only [if_true, wp_modify, Measuring.map, hs₂]
              rfl
          | false =>
              simp only [Bool.false_eq_true, if_false, wp_pure, hs₂]
              rfl
        · obtain ⟨hs₂, r₂, hr₂⟩ := h₂
          refine hhandler e .PASS s₂ (hs₂.trans hpassed) ?_
          simp only [OpenHtf.Measurement.validate, exceptException, Act.catching, hvs, bind_apply, hr₁,
            andThen, if_true, hr₂]
          cases e.isException with
          | true => exact ⟨r₂, rfl⟩
          | false => exact ⟨r₂, rfl⟩
  · obtain ⟨hs₁, r₁, hr₁⟩ := h₁
    refine hhandler e _ s₁ hs₁ ?_
    simp only [OpenHtf.Measurement.validate, exceptException, Act.catching, hvs, bind_apply, hr₁, andThen]
    cases e.isException with
    | true => exact ⟨r₁, rfl⟩
    | false => exact ⟨r₁, rfl⟩

theorem recordException_ok {e : PyExc} {r : RunState} (hresult : r.result.isSome) :
    ∃ r', recordException e r = (.ok (), r') := by
  obtain ⟨result, hresult⟩ := Option.isSome_iff_exists.mp hresult
  rw [RunState.result] at hresult
  cases hterminal : result.isTerminal with
  | true => exact ⟨r, by simp [recordException, andThen, hresult, hterminal]⟩
  | false => exact ⟨_, by simp [recordException, andThen, hresult, hterminal]; rfl⟩

/-- The end of one round of `_finalize_measurements`. -/
theorem record_finalizePartial (str : AnyMeasuredValue κ Value Base → String)
    {s : Measuring κ Value Base} {r : RunState} (hr : r.moment = s.moment)
    (hresult : r.result.isSome) :
    wp (do
        if (← Act.gets (·.measurement)).outcome == .PARTIALLY_SET then
          Act.catching validate fun e ↦ if e.isException then pure () else Act.raise e :
            Stmt κ Value Base Unit)
      (fun _ s' ↦ (finalizeMeasurement false (s.measurement.record str) r).1 =
        .ok (s'.measurement.record str))
      (fun e _ ↦ (finalizeMeasurement false (s.measurement.record str) r).1 = .error e) s := by
  have houtcome : (s.measurement.record str).outcome = s.measurement.outcome := rfl
  simp only [wp_bind, wp_gets, wp_ite, finalizeMeasurement, Bool.false_and, Bool.false_eq_true, if_false,
    houtcome]
  cases hpartial : s.measurement.outcome == .PARTIALLY_SET with
  | false => rfl
  | true =>
      simp only [if_true, wp_catching, bind_apply]
      have hframe := endKept_endFrame.validate (s.measurement.record str) r
      refine (record_validate str hr).mono (fun _ s' h ↦ ?_) fun e s' h ↦ ?_
      · rcases hv : (s.measurement.record str).validate r with ⟨res, r'⟩
        rw [hv] at h
        simp only at h
        simp [h, andThen]
      · rcases hv : (s.measurement.record str).validate r with ⟨res, r'⟩
        rw [hv] at h hframe
        simp only at h
        obtain ⟨result, hresult'⟩ := Option.isSome_iff_exists.mp hresult
        obtain ⟨result', hr', -⟩ := hframe.result result hresult'
        obtain ⟨r'', hr''⟩ := recordException_ok (e := e) (r := r') (by simp [hr'])
        cases he : e.isException with
        | true => simp [h, he, andThen, hr'']
        | false => simp [h, he, andThen]

/-- One round of `_finalize_measurements` on the executor's measurement. -/
theorem record_finalize {str : AnyMeasuredValue κ Value Base → String}
    (hstr : ∀ b v, str (setNotify b v) = str v) {s : Measuring κ Value Base} {r : RunState}
    (hr : r.moment = s.moment) (hresult : r.result.isSome) (phaseSkipped : Bool) :
    wp (finalize phaseSkipped)
      (fun _ s' ↦ (finalizeMeasurement phaseSkipped (s.measurement.record str) r).1 =
        .ok (s'.measurement.record str))
      (fun e _ ↦ (finalizeMeasurement phaseSkipped (s.measurement.record str) r).1 = .error e) s := by
  have hnotify : s.measurement.record str = (s.mapValue (setNotify false)).measurement.record str := by
    simp only [Measuring.mapValue, Measuring.map, Measurement.record, hstr, value_setNotify]
  rw [finalize, wp_bind, wp_modify, hnotify]
  simp only [wp_bind, wp_gets, wp_ite]
  split
  · rename_i hskip
    have hskipped : ∀ m : OpenHtf.Measurement, (phaseSkipped && m.outcome == .UNSET) = true →
        finalizeMeasurement phaseSkipped m = finalizeMeasurement false { m with outcome := .SKIPPED } := by
      intro m hm
      simp [finalizeMeasurement, hm]
    rw [hskipped _ hskip]
    have hend := record_finalizePartial str
      (s := (s.mapValue (setNotify false)).map fun m ↦ { m with outcome := .SKIPPED }) hr hresult
    simp only [wp_bind, wp_gets, wp_ite] at hend
    simp only [setOutcome, wp_modify]
    exact hend
  · rename_i hskip
    have hkept : ∀ m : OpenHtf.Measurement, ¬(phaseSkipped && m.outcome == .UNSET) = true →
        finalizeMeasurement phaseSkipped m = finalizeMeasurement false m := by
      intro m hm
      simp [finalizeMeasurement, hm]
    rw [hkept _ hskip]
    simpa only [wp_bind, wp_gets, wp_ite] using
      record_finalizePartial str (s := s.mapValue (setNotify false)) hr hresult

end OpenHtf.Measurements
