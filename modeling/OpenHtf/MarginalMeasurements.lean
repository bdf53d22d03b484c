import OpenHtf.Measurements

/-!
# The marginal flag of a measurement

`validate` sets the flag and nothing ever takes it back.  It is right in every
run in which a measurement that is marginal already is validated again only with
values that pass and are marginal too, and then the two converters that look at
the flag before the outcome report a marginal pass for passing measurements only.
-/

set_option autoImplicit false

namespace OpenHtf.Measurements

open Act

variable {κ Value Base : Type}

/-! ## Marginal values -/

/-- Some validator answers, at some moment, that the current value is marginal. -/
def Measurement.IsMarginal (m : Measurement κ Value Base) : Prop :=
  ∃ x, m.measuredValue.value = .ok x ∧
    ∃ v ∈ m.validators, ∃ isMarginal, v.isMarginal = some isMarginal ∧ ∃ t, isMarginal t x = .ok true

def MarginalPasses (m : Measurement κ Value Base) : Prop :=
  m.marginal = true → m.outcome = .PASS ∧ m.IsMarginal

/-- The statuses of the protos that measurements are given. -/
inductive Status where
  | PASS | FAIL | ERROR | SKIPPED | MARGINAL_PASS
  deriving DecidableEq

/-- `mfg_event_converter._measurement_outcome_to_test_run_status_name`. -/
def measurementOutcomeToTestRunStatusName (outcome : MeasurementOutcome) (marginal : Bool) : Status :=
  if marginal then .MARGINAL_PASS
  else
    match outcome with
    | .PASS => .PASS
    | .FAIL => .FAIL
    | .UNSET => .ERROR
    | .PARTIALLY_SET => .ERROR
    | .SKIPPED => .SKIPPED

/-- The status in `test_runs_converter._extract_parameters`. -/
def extractStatus (m : Measurement κ Value Base) : Status :=
  if m.marginal then if m.measuredValue.isValueSet then .MARGINAL_PASS else .ERROR
  else if m.outcome = .PASS then if m.measuredValue.isValueSet then .PASS else .ERROR
  else if m.measuredValue.isValueSet then .FAIL else .ERROR

/-- Neither converter reports a marginal pass of a measurement that did not pass. -/
structure ReportedRight (m : Measurement κ Value Base) : Prop where
  mfgEvent : measurementOutcomeToTestRunStatusName m.outcome m.marginal = .MARGINAL_PASS →
    m.outcome = .PASS
  testRuns : extractStatus m = .MARGINAL_PASS → m.outcome = .PASS

/-! ## The condition -/

/-- The validators called one after the other from the moment on all accept. -/
def AllAccept (x : Measured κ Value) : List (Validator κ Value) → ℕ → Prop
  | [], _ => True
  | v :: vs, t => v.call t x = .ok true ∧ AllAccept x vs (t + 1)

/-- Asked one after the other from the moment on, a validator answers that the
value is marginal. -/
def SomeMarginal (x : Measured κ Value) : List (Validator κ Value) → ℕ → Prop
  | [], _ => False
  | v :: vs, t =>
      match v.isMarginal with
      | none => SomeMarginal x vs t
      | some isMarginal =>
          isMarginal t x = .ok true ∨ isMarginal t x = .ok false ∧ SomeMarginal x vs (t + 1)

def StaysMarginal (vs : List (Validator κ Value)) (x : Measured κ Value) (t : ℕ) : Prop :=
  AllAccept x vs t ∧ SomeMarginal x vs (t + vs.length)

/-- The moment after the call of `transform_fn`. -/
def Measuring.transformedAt (s : Measuring κ Value Base) : ℕ :=
  s.moment + if s.measurement.transformFn.isSome then 1 else 0

section Condition

variable [DecidableEq κ] (conv : Conversion κ Value Base)

/-- Coordinates of a marginal measurement are set only past the notification, and
only so that the value stays marginal. -/
def KeepsItemsMarginal (s : Measuring κ Value Base) (d : DimensionedMeasuredValue κ Value Base)
    (key : κ) (v : Value) : Prop :=
  ∀ rows w, cacheRow conv d key v = .ok rows → s.measurement.transformed s.moment v = .ok w →
    d.notifyValueSet = false ∧ Measurement.IsMarginal { s.measurement with
      measuredValue := .dimensioned
        { d with cachedBasetypeValues := rows, valueDict := dictSet key w d.valueDict } }

/-- The condition on a step from a state in which the measurement is marginal. -/
def Op.KeepsMarginal (s : Measuring κ Value Base) : Op κ Value → Prop
  | setItem v => s.measurement.dimensions = [] →
      ∀ w, s.measurement.transformed s.moment v = .ok w →
        (∃ base, conv.value w = .ok base) ∧
          StaysMarginal s.measurement.validators (.value w) s.transformedAt
  | setCoordinates c v => ∀ d, s.measurement.measuredValue = .dimensioned d →
      c.len = d.numDimensions → c.hashable = true →
        KeepsItemsMarginal conv s { d with notifyValueSet := true } c.key v
  | setCoordinatesDirectly c v => ∀ d, s.measurement.measuredValue = .dimensioned d →
      c.len = d.numDimensions → c.hashable = true → KeepsItemsMarginal conv s d c.key v
  | validate => ∀ x, s.measurement.measuredValue.value = .ok x →
      StaysMarginal s.measurement.validators x s.moment
  | skip => True
  | finalize _ => True
  | asBaseTypes => True

def RunKeepsMarginal : List (Op κ Value) → Measuring κ Value Base → Prop
  | [], _ => True
  | op :: ops, s =>
      (s.measurement.marginal = true → op.KeepsMarginal conv s) ∧
        RunKeepsMarginal ops (op.step conv s)

end Condition

/-! ## Validators -/

theorem AllAccept.allValid {x : Measured κ Value} {vs : List (Validator κ Value)}
    {s : Measuring κ Value Base} (h : AllAccept x vs s.moment)
    (hx : s.measurement.measuredValue.value = .ok x) :
    Measurements.allValid vs s = (.ok true, { s with moment := s.moment + vs.length }) := by
  induction vs generalizing s with
  | nil => rfl
  | cons v vs ih =>
      have hrest := ih (s := { s with moment := s.moment + 1 }) h.2 hx
      simp only [Measurements.allValid, bind_apply, gets_apply, andThen, hx, liftExcept, pure_apply,
        callRaising, callAt, h.1, if_true, hrest]
      simp [Nat.add_assoc, Nat.add_comm 1]

theorem SomeMarginal.anyMarginal {x : Measured κ Value} {vs : List (Validator κ Value)}
    {s : Measuring κ Value Base} (h : SomeMarginal x vs s.moment)
    (hx : s.measurement.measuredValue.value = .ok x) :
    ∃ t, Measurements.anyMarginal vs s = (.ok true, { s with moment := t }) := by
  induction vs generalizing s with
  | nil => exact h.elim
  | cons v vs ih =>
      unfold SomeMarginal at h
      cases hv : v.isMarginal with
      | none =>
          rw [hv] at h
          obtain ⟨t, ht⟩ := ih h hx
          exact ⟨t, by simp only [Measurements.anyMarginal, hv, ht]⟩
      | some isMarginal =>
          simp only [hv] at h
          rcases h with h | ⟨h, hrest⟩
          · refine ⟨s.moment + 1, ?_⟩
            simp [Measurements.anyMarginal, hv, andThen, hx, liftExcept, callRaising, callAt, h]
          · obtain ⟨t, ht⟩ := ih (s := { s with moment := s.moment + 1 }) hrest hx
            refine ⟨t, ?_⟩
            simp [Measurements.anyMarginal, hv, andThen, hx, liftExcept, callRaising, callAt, h, ht]

theorem SomeMarginal.exists {x : Measured κ Value} {vs : List (Validator κ Value)} {t : ℕ}
    (h : SomeMarginal x vs t) :
    ∃ v ∈ vs, ∃ isMarginal, v.isMarginal = some isMarginal ∧ ∃ t, isMarginal t x = .ok true := by
  induction vs generalizing t with
  | nil => exact h.elim
  | cons v vs ih =>
      unfold SomeMarginal at h
      cases hv : v.isMarginal with
      | none =>
          rw [hv] at h
          obtain ⟨v', hv', hmarginal⟩ := ih h
          exact ⟨v', List.mem_cons_of_mem v hv', hmarginal⟩
      | some isMarginal =>
          simp only [hv] at h
          rcases h with h | ⟨-, hrest⟩
          · exact ⟨v, List.mem_cons_self, isMarginal, hv, t, h⟩
          · obtain ⟨v', hv', hmarginal⟩ := ih hrest
            exact ⟨v', List.mem_cons_of_mem v hv', hmarginal⟩

/-- When the validators are asked and one answers yes, the value is marginal. -/
theorem anyMarginal_spec (vs : List (Validator κ Value)) (s : Measuring κ Value Base) :
    wp (anyMarginal vs)
      (fun b s' ↦ s'.measurement = s.measurement ∧
        (b = true → ∃ x, s.measurement.measuredValue.value = .ok x ∧
          ∃ v ∈ vs, ∃ isMarginal, v.isMarginal = some isMarginal ∧ ∃ t, isMarginal t x = .ok true))
      (fun _ s' ↦ s'.measurement = s.measurement) s := by
  induction vs generalizing s with
  | nil => exact ⟨rfl, nofun⟩
  | cons v vs ih =>
      have hrest : ∀ s' : Measuring κ Value Base, s'.measurement = s.measurement →
          wp (anyMarginal vs)
            (fun b s' ↦ s'.measurement = s.measurement ∧
              (b = true → ∃ x, s.measurement.measuredValue.value = .ok x ∧ ∃ v' ∈ v :: vs,
                ∃ isMarginal, v'.isMarginal = some isMarginal ∧ ∃ t, isMarginal t x = .ok true))
            (fun _ s' ↦ s'.measurement = s.measurement) s' := by
        intro s' hs'
        refine (ih s').mono (fun b s'' h ↦ ⟨h.1.trans hs', fun hb ↦ ?_⟩) fun _ _ h ↦ h.trans hs'
        obtain ⟨x, hx, v', hv', hmarginal⟩ := h.2 hb
        exact ⟨x, hs' ▸ hx, v', List.mem_cons_of_mem v hv', hmarginal⟩
      rw [anyMarginal]
      cases hv : v.isMarginal with
      | none => exact hrest s rfl
      | some isMarginal =>
          simp only [wp_bind, wp_gets, wp_liftExcept]
          cases hx : s.measurement.measuredValue.value with
          | error e => rfl
          | ok x =>
              simp only [callRaising, wp_bind, wp_callAt, wp_liftExcept]
              cases hm : isMarginal s.moment x with
              | error e => rfl
              | ok b =>
                  cases b with
                  | true => exact ⟨rfl, fun _ ↦ ⟨x, rfl, v, List.mem_cons_self, isMarginal, hv, _, hm⟩⟩
                  | false => exact hx ▸ hrest _ rfl

/-! ## Steps -/

/-- What the flag, the outcome and the current value are seen through. -/
def SameView (s s' : Measuring κ Value Base) : Prop :=
  s'.measurement.toDeclaration = s.measurement.toDeclaration ∧
    s'.measurement.measuredValue.value = s.measurement.measuredValue.value ∧
    s'.measurement.outcome = s.measurement.outcome ∧ s'.measurement.marginal = s.measurement.marginal

theorem MarginalPasses.of_sameView {s s' : Measuring κ Value Base} (h : SameView s s')
    (hs : MarginalPasses s.measurement) : MarginalPasses s'.measurement := by
  obtain ⟨hdecl, hvalue, houtcome, hmarginal⟩ := h
  intro hm
  obtain ⟨hpass, x, hx, v, hv, hsome⟩ := hs (hmarginal ▸ hm)
  exact ⟨houtcome ▸ hpass, x, hvalue ▸ hx, v, hdecl ▸ hv, hsome⟩

/-- A measurement that is not marginal, or whose value stays so, is right after
its validation. -/
theorem validate_marginal {s : Measuring κ Value Base}
    (h : s.measurement.marginal = true → ∃ x, s.measurement.measuredValue.value = .ok x ∧
      StaysMarginal s.measurement.validators x s.moment) :
    wp validate (fun _ s' ↦ MarginalPasses s'.measurement)
      (fun _ s' ↦ MarginalPasses s'.measurement) s := by
  have hpatch : ∀ s' : Measuring κ Value Base, MarginalPasses s'.measurement →
      wp patchCachedOutcome (fun _ s'' ↦ MarginalPasses s''.measurement)
        (fun _ s'' ↦ MarginalPasses s''.measurement) s' := fun s' hs' ↦
    hs'.of_sameView (s := s') ⟨rfl, rfl, rfl, rfl⟩
  rw [validate, wp_finally]
  suffices hbody : wp _ (fun _ s' ↦ MarginalPasses s'.measurement)
      (fun _ s' ↦ MarginalPasses s'.measurement) s from
    hbody.mono (fun _ s' hs' ↦ hpatch s' hs') fun _ s' hs' ↦ hpatch s' hs'
  simp only [wp_catching, wp_bind, wp_gets]
  cases hm : s.measurement.marginal with
  | true =>
      obtain ⟨x, hx, hall, hsome⟩ := h hm
      let accepted : Measuring κ Value Base :=
        { s with moment := s.moment + s.measurement.validators.length }
      obtain ⟨t, ht⟩ := hsome.anyMarginal
        (s := accepted.map fun m ↦ { m with outcome := .PASS }) hx
      rw [wp_eq_of_ok (hall.allValid hx)]
      simp only [if_true, setOutcome, wp_bind, wp_modify]
      rw [wp_eq_of_ok ht]
      exact fun _ ↦ ⟨rfl, x, hx, hsome.exists⟩
  | false =>
      have hfail : ∀ (o : MeasurementOutcome) (s' : Measuring κ Value Base),
          s'.measurement = { s.measurement with outcome := o } → MarginalPasses s'.measurement := by
        intro o s' hs' hm'
        simp [hs', hm] at hm'
      have hhandler : ∀ (e : PyExc) (o : MeasurementOutcome) (s' : Measuring κ Value Base),
          s'.measurement = { s.measurement with outcome := o } →
          wp (do
              if e.isException then setOutcome .FAIL
              Act.raise e : Stmt κ Value Base Unit)
            (fun _ s' ↦ MarginalPasses s'.measurement)
            (fun _ s' ↦ MarginalPasses s'.measurement) s' := by
        intro e o s' hs'
        simp only [setOutcome, wp_ite, wp_bind, wp_modify, wp_raise]
        split
        · exact hfail .FAIL _ (by simp [Measuring.map, hs'])
        · exact hfail o s' hs'
      refine ((same_allValid _).wp s).mono (fun valid s₁ h₁ ↦ ?_) fun e s₁ h₁ ↦ hhandler e _ s₁ h₁
      cases valid with
      | false => exact hfail .FAIL _ (by rw [Measuring.map, h₁])
      | true =>
          simp only [if_true, setOutcome, wp_bind, wp_modify]
          have hpass : (s₁.map fun m ↦ { m with outcome := .PASS }).measurement =
              { s.measurement with outcome := .PASS } := by rw [Measuring.map, h₁]
          refine (anyMarginal_spec _ _).mono (fun b s₂ h₂ ↦ ?_) fun e s₂ h₂ ↦
            hhandler e .PASS s₂ (h₂.trans hpass)
          obtain ⟨hs₂, hb⟩ := h₂
          cases b with
          | false => exact hfail .PASS s₂ (hs₂.trans hpass)
          | true =>
              obtain ⟨x, hx, hmarginal⟩ := hb rfl
              rw [hpass] at hs₂ hx
              refine fun _ ↦ ⟨by rw [Measuring.map, hs₂], x, ?_, ?_⟩
              · rw [Measuring.map, hs₂]
                exact hx
              · rw [Measuring.map, hs₂]
                exact hmarginal

theorem marginalPasses_of_false {m : Measurement κ Value Base} (h : m.marginal = false) :
    MarginalPasses m := fun hm ↦ by
  simp [h] at hm

theorem notifyValueSet_marginal {s : Measuring κ Value Base}
    (hdims : s.measurement.dimensions ≠ [] → s.measurement.marginal = false)
    (h : s.measurement.marginal = true → ∃ x, s.measurement.measuredValue.value = .ok x ∧
      StaysMarginal s.measurement.validators x s.moment) :
    wp notifyValueSet (fun _ s' ↦ MarginalPasses s'.measurement)
      (fun _ s' ↦ MarginalPasses s'.measurement) s := by
  simp only [notifyValueSet, wp_bind, wp_gets, wp_ite]
  split
  · exact marginalPasses_of_false (hdims ‹_›)
  · exact validate_marginal h

theorem isValueSet_of_value {v : AnyMeasuredValue κ Value Base} {x : Measured κ Value}
    (h : v.value = .ok x) : v.isValueSet = true := by
  unfold AnyMeasuredValue.value at h
  split at h
  · rfl
  · rfl
  · cases h

instance : Std.Refl (SameView : Measuring κ Value Base → Measuring κ Value Base → Prop) where
  refl _ := ⟨rfl, rfl, rfl, rfl⟩

instance : IsTrans (Measuring κ Value Base) SameView where
  trans _ _ _ h h' := ⟨h'.1.trans h.1, h'.2.1.trans h.2.1, h'.2.2.1.trans h.2.2.1,
    h'.2.2.2.trans h.2.2.2⟩

theorem value_setCache (d : DimensionedMeasuredValue κ Value Base) (rows : Option (List Base)) :
    (AnyMeasuredValue.dimensioned { d with cachedBasetypeValues := rows }).value =
      (AnyMeasuredValue.dimensioned d).value := by
  obtain ⟨n, notify, _ | ⟨item, items⟩, rows'⟩ := d <;> rfl

section Runs

variable {conv : Conversion κ Value Base}

theorem sameView_asBaseTypes : Within SameView (asBaseTypes conv) := by
  have hvalue : Within SameView (basetypeValue conv) := by
    intro s
    refine (wp_same (P := SameView s)).mp ?_
    have hrefl : SameView s s := ⟨rfl, rfl, rfl, rfl⟩
    simp only [basetypeValue, wp_bind, wp_gets]
    cases hm : s.measurement.measuredValue with
    | plain v => exact hrefl
    | dimensioned d =>
        cases hrows : d.cachedBasetypeValues with
        | some rows =>
            simp only [hrows]
            exact hrefl
        | none =>
            simp only [hrows, wp_bind, wp_liftExcept]
            cases convertItems conv d.valueDict with
            | error e => exact hrefl
            | ok rows =>
                refine ⟨rfl, ?_, rfl, rfl⟩
                rw [hm]
                exact value_setCache d (some rows)
  refine .bind (.modify fun _ ↦ ⟨rfl, rfl, rfl, rfl⟩) fun _ ↦ .bind .gets fun _ ↦ .ite (fun _ ↦ ?_)
    fun _ ↦ .gets
  exact .bind hvalue fun _ ↦ .bind (.modify fun _ ↦ ⟨rfl, rfl, rfl, rfl⟩) fun _ ↦ .gets

variable [DecidableEq κ]

theorem setItem_marginal {s : Measuring κ Value Base} {v : Value}
    (h : MarginalPasses s.measurement)
    (hkeep : s.measurement.marginal = true → (Op.setItem v).KeepsMarginal conv s) :
    wp (setItem conv v) (fun _ s' ↦ MarginalPasses s'.measurement)
      (fun _ s' ↦ MarginalPasses s'.measurement) s := by
  simp only [setItem, setPlain, wp_bind, wp_gets, wp_ite]
  split
  · exact h
  rename_i hdims
  rw [ne_eq, not_not] at hdims
  cases hv : s.measurement.measuredValue with
  | dimensioned d => exact h
  | plain m =>
      simp only [wp_bind, wp_transform]
      cases hw : s.measurement.transformed s.moment v with
      | error e => exact h
      | ok w =>
          simp only [wp_modify, wp_liftExcept]
          cases hbase : conv.value w with
          | error e =>
              refine marginalPasses_of_false ?_
              by_contra hm
              rw [Bool.not_eq_false] at hm
              obtain ⟨⟨base, hbase'⟩, -⟩ := hkeep hm hdims w hw
              simp [hbase] at hbase'
          | ok base =>
              simp only [wp_callAt]
              refine (notifyValueSet_marginal ?_ ?_).mono (fun _ s' hs' ↦ ?_) fun _ _ hs' ↦ hs'
              · exact fun hne ↦ absurd hdims hne
              · exact fun hm ↦ ⟨.value w, rfl, (hkeep hm hdims w hw).2⟩
              · exact hs'.of_sameView (s := s') ⟨rfl, rfl, rfl, rfl⟩

theorem setCoordinates_marginal {s : Measuring κ Value Base} {c : Coordinates κ} {v : Value}
    (h : MarginalPasses s.measurement)
    (hkeep : s.measurement.marginal = true → (Op.setCoordinatesDirectly c v).KeepsMarginal conv s) :
    wp (setCoordinates conv c v) (fun _ s' ↦ MarginalPasses s'.measurement)
      (fun _ s' ↦ MarginalPasses s'.measurement) s := by
  simp only [setCoordinates, wp_bind, wp_gets]
  cases hv : s.measurement.measuredValue with
  | plain m => exact h
  | dimensioned d =>
      simp only [wp_ite, wp_bind, wp_liftExcept, wp_modify]
      split
      · exact h
      split
      · exact h
      rename_i hlen hhash
      cases hr : cacheRow conv d c.key v with
      | error e => exact h
      | ok rows =>
          simp only [wp_transform, Measuring.mapValue_transformed, Measuring.mapValue_moment]
          cases hw : s.measurement.transformed s.moment v with
          | error e =>
              refine h.of_sameView (s := s) ⟨rfl, ?_, rfl, rfl⟩
              rw [hv]
              exact value_setCache d rows
          | ok w =>
              have hitems : s.measurement.marginal = true → _ := fun hm ↦
                hkeep hm d hv (by simpa using hlen) (by simpa using hhash) rows w hr hw
              simp only [wp_pure]
              split
              · rename_i hnotify
                have hm : s.measurement.marginal = false := by
                  by_contra hm
                  have hfalse := (hitems (by simpa using hm)).1
                  simp [hnotify] at hfalse
                refine notifyValueSet_marginal (fun _ ↦ hm) fun hm' ↦ ?_
                simp [Measuring.mapValue, Measuring.map, hm] at hm'
              · exact fun hm ↦ ⟨(h hm).1, (hitems hm).2⟩

omit [DecidableEq κ] in
theorem finalize_marginal {s : Measuring κ Value Base} {phaseSkipped : Bool}
    (h : MarginalPasses s.measurement) :
    wp (finalize phaseSkipped) (fun _ s' ↦ MarginalPasses s'.measurement)
      (fun _ s' ↦ MarginalPasses s'.measurement) s := by
  have hnotify : MarginalPasses (s.mapValue (setNotify false)).measurement :=
    h.of_sameView (s := s) ⟨rfl, value_setNotify false _, rfl, rfl⟩
  -- Only a measurement that is not marginal is validated here.
  have hrest : ∀ s' : Measuring κ Value Base, MarginalPasses s'.measurement →
      (if s'.measurement.outcome == .PARTIALLY_SET then
        wp (Act.catching validate fun e ↦ if e.isException then pure () else Act.raise e)
          (fun _ s' ↦ MarginalPasses s'.measurement) (fun _ s' ↦ MarginalPasses s'.measurement) s'
      else MarginalPasses s'.measurement) := by
    intro s' hs'
    split
    · rename_i houtcome
      rw [beq_iff_eq] at houtcome
      rw [wp_catching]
      refine (validate_marginal fun hm ↦ ?_).mono (fun _ _ h' ↦ h') fun e s'' h' ↦ ?_
      · have hpass := (hs' hm).1
        rw [houtcome] at hpass
        cases hpass
      · rw [wp_ite]
        split
        · exact h'
        · exact h'
    · exact hs'
  simp only [finalize, setOutcome, wp_bind, wp_modify, wp_gets, wp_ite]
  split
  · rename_i hskip
    rw [Bool.and_eq_true, beq_iff_eq] at hskip
    refine hrest _ (marginalPasses_of_false ?_)
    by_contra hm
    rw [Bool.not_eq_false] at hm
    have hpass := (hnotify hm).1
    rw [hskip.2] at hpass
    cases hpass
  · exact hrest _ hnotify

theorem marginalPasses_step {op : Op κ Value} {s : Measuring κ Value Base}
    (h : MarginalPasses s.measurement)
    (hkeep : s.measurement.marginal = true → op.KeepsMarginal conv s) :
    MarginalPasses (op.step conv s).measurement := by
  refine (wp_same (P := fun s : Measuring κ Value Base ↦ MarginalPasses s.measurement)).mp ?_
  cases op with
  | setItem v => exact setItem_marginal h hkeep
  | setCoordinates c v =>
      simp only [Op.execute, collectionSetCoordinates, wp_bind, wp_modify]
      refine setCoordinates_marginal ?_ fun hm d hd hlen hhash ↦ ?_
      · exact h.of_sameView (s := s) ⟨rfl, value_setNotify true _, rfl, rfl⟩
      · cases hv : s.measurement.measuredValue with
        | plain v' => simp [Measuring.mapValue, Measuring.map, hv, setNotify] at hd
        | dimensioned d' =>
            obtain rfl : { d' with notifyValueSet := true } = d := by
              simpa [Measuring.mapValue, Measuring.map, hv, setNotify] using hd
            exact hkeep hm d' hv hlen hhash
  | setCoordinatesDirectly c v => exact setCoordinates_marginal h hkeep
  | skip =>
      simp only [Op.execute, setMeasurementOutcomeToSkipped, setOutcome, wp_bind, wp_gets, wp_ite, wp_modify]
      split
      · exact h
      · rename_i hset
        refine marginalPasses_of_false ?_
        by_contra hm
        rw [Bool.not_eq_false] at hm
        obtain ⟨-, x, hx, -⟩ := h hm
        exact hset (isValueSet_of_value hx)
  | validate =>
      refine validate_marginal fun hm ↦ ?_
      obtain ⟨-, x, hx, -⟩ := h hm
      exact ⟨x, hx, hkeep hm x hx⟩
  | finalize phaseSkipped => exact finalize_marginal h
  | asBaseTypes =>
      simp only [Op.execute, wp_bind, wp_pure]
      exact (sameView_asBaseTypes.wp s).mono (fun _ _ h' ↦ h.of_sameView h') fun _ _ h' ↦ h.of_sameView h'

theorem marginalPasses_run {ops : List (Op κ Value)} {s : Measuring κ Value Base}
    (h : MarginalPasses s.measurement) (hkeep : RunKeepsMarginal conv ops s) :
    MarginalPasses (run conv ops s).measurement := by
  induction ops generalizing s with
  | nil => exact h
  | cons op ops ih => exact ih (marginalPasses_step h hkeep.1) hkeep.2

omit [DecidableEq κ] in
theorem MarginalPasses.reportedRight {m : Measurement κ Value Base} (h : MarginalPasses m) :
    ReportedRight m := by
  refine ⟨fun hstatus ↦ ?_, fun hstatus ↦ ?_⟩
  · cases hm : m.marginal with
    | true => exact (h hm).1
    | false => cases ho : m.outcome <;> simp [measurementOutcomeToTestRunStatusName, hm, ho] at hstatus
  · cases hm : m.marginal with
    | true => exact (h hm).1
    | false =>
        simp only [extractStatus, hm, Bool.false_eq_true, if_false] at hstatus
        split at hstatus
        · assumption
        · split at hstatus <;> cases hstatus

/-- In every run in which a marginal measurement is validated again only with
values that stay marginal, the flag is right and the converters report it right. -/
theorem marginal_implies_pass (conv : Conversion κ Value Base) (d : Declaration κ Value) (moment : ℕ)
    (ops : List (Op κ Value)) (hkeep : RunKeepsMarginal conv ops ⟨d.measurement, moment⟩) :
    MarginalPasses (run conv ops ⟨d.measurement, moment⟩).measurement ∧
      ReportedRight (run conv ops ⟨d.measurement, moment⟩).measurement := by
  have hmarginal := marginalPasses_run (marginalPasses_of_false rfl) hkeep
  exact ⟨hmarginal, hmarginal.reportedRight⟩

end Runs

/-! ## The defect -/

/-- A range from 0 to 10 that is marginal from 8 on. -/
def rangeValidator : Validator ℕ ℕ where
  text := "0 <= x <= 10"
  call _ x := match x with
    | .value v => .ok (v ≤ 10)
    | .items _ => .ok false
  isMarginal := some fun _ x ↦ match x with
    | .value v => .ok (8 ≤ v)
    | .items _ => .ok false

def rangeDeclaration : Declaration ℕ ℕ := { name := "voltage", validators := [rangeValidator] }

def keepValues : Conversion ℕ ℕ ℕ := ⟨.ok, fun key v ↦ .ok (key + v)⟩

theorem marginal_implies_pass_reset :
    MarginalPasses (run keepValues [.setItem 9, .setItem 10] ⟨rangeDeclaration.measurement, 1⟩).measurement ∧
      ReportedRight (run keepValues [.setItem 9, .setItem 10] ⟨rangeDeclaration.measurement, 1⟩).measurement :=
  marginal_implies_pass keepValues rangeDeclaration 1 [.setItem 9, .setItem 10] (by
    refine ⟨fun hm ↦ absurd hm (by decide), fun _ _ w hw ↦ ?_, trivial⟩
    obtain rfl : 10 = w := Except.ok.inj hw
    exact ⟨⟨10, rfl⟩, ⟨rfl, trivial⟩, .inl rfl⟩)

/-- A marginal value and then one out of range. -/
theorem not_marginal_implies_pass_failed :
    ¬(MarginalPasses (run keepValues [.setItem 9, .setItem 11] ⟨rangeDeclaration.measurement, 1⟩).measurement ∧
      ReportedRight (run keepValues [.setItem 9, .setItem 11] ⟨rangeDeclaration.measurement, 1⟩).measurement) := by
  intro h
  have hpass := h.2.mfgEvent (by decide)
  revert hpass
  decide

end OpenHtf.Measurements
