import OpenHtf.PhaseState

/-!
# Measurements and their values

`measurements.Measurement` with the value that it holds, its transform function
and the cached dict of its base types, for any type `κ` of the tuples of
coordinates, `Value` of measured values and `Base` of converted values.  The
phase executor works on what `Measurement.record` leaves of it.
-/

set_option autoImplicit false

namespace OpenHtf

namespace Measurements

/-! ## Values -/

/-- What `value` gives: the value, or the items of a dimensioned one. -/
inductive Measured (κ Value : Type) where
  | value (v : Value)
  | items (items : List (κ × Value))

/-- `data.convert_to_base_types` on a value and on the tuple of some coordinates
and a value. -/
structure Conversion (κ Value Base : Type) where
  value : Value → Except PyExc Base
  item : κ → Value → Except PyExc Base

structure MeasuredValue (Value Base : Type) where
  storedValue : Option Value := none
  isValueSet : Bool := false
  cachedValue : Option Base := none

/-- `notifyValueSet` tells whether a callback has been installed; it is always
the one of the measurement. -/
structure DimensionedMeasuredValue (κ Value Base : Type) where
  numDimensions : ℕ
  notifyValueSet : Bool := false
  valueDict : List (κ × Value) := []
  cachedBasetypeValues : Option (List Base) := some []

inductive AnyMeasuredValue (κ Value Base : Type) where
  | plain (v : MeasuredValue Value Base)
  | dimensioned (v : DimensionedMeasuredValue κ Value Base)

/-- Coordinates as they are passed: what `_coordinates_len` gives for them,
whether they can be hashed, and the tuple that they make. -/
structure Coordinates (κ : Type) where
  len : ℕ
  hashable : Bool := true
  key : κ

/-! ## Measurements -/

structure Validator (κ Value : Type) where
  text : String
  call : ℕ → Measured κ Value → Except PyExc Bool
  isMarginal : Option (ℕ → Measured κ Value → Except PyExc Bool) := none

structure UnitDescriptor where
  name : String
  code : String
  suffix : Option String
  deriving DecidableEq

structure Dimension where
  description : String := ""
  unit : UnitDescriptor := ⟨"No dimension", "NDL", none⟩
  deriving DecidableEq

/-- The fields of a measurement that are set during its definition. -/
structure Declaration (κ Value : Type) where
  name : String
  docstring : Option String := none
  units : Option UnitDescriptor := none
  dimensions : List Dimension := []
  transformFn : Option (ℕ → Value → Except PyExc Value) := none
  validators : List (Validator κ Value) := []
  conditionalValidators : List (DiagResult × Validator κ Value) := []
  allowFail : Bool := false

/-- The dict of `as_base_types`; a key that is not there is `none`. -/
structure BaseDict (Base : Type) where
  name : String
  outcome : String
  validators : Option (List String) := none
  conditionalValidators : Option (List (DiagResult × String)) := none
  dimensions : Option (List Dimension) := none
  units : Option UnitDescriptor := none
  docstring : Option String := none
  measuredValue : Option (Base ⊕ List Base) := none
  deriving DecidableEq

structure Measurement (κ Value Base : Type) extends Declaration κ Value where
  measuredValue : AnyMeasuredValue κ Value Base
  outcome : MeasurementOutcome := .UNSET
  marginal : Bool := false
  setTimeMillis : Option ℕ := none
  cached : Option (BaseDict Base) := none

variable {κ Value Base : Type}

namespace AnyMeasuredValue

def isValueSet : AnyMeasuredValue κ Value Base → Bool
  | plain v => v.isValueSet
  | dimensioned v => !v.valueDict.isEmpty

/-- The property `value`, which raises when nothing is set. -/
def value : AnyMeasuredValue κ Value Base → Except PyExc (Measured κ Value)
  | plain ⟨some x, true, _⟩ => .ok (.value x)
  | dimensioned ⟨_, _, item :: items, _⟩ => .ok (.items (item :: items))
  | _ => .error (.ofClass .MeasurementNotSetError "Measurement not yet set")

end AnyMeasuredValue

/-- `Measurement._initialize_value`. -/
def Declaration.initializeValue (d : Declaration κ Value) : AnyMeasuredValue κ Value Base :=
  if d.dimensions = [] then .plain {} else .dimensioned { numDimensions := d.dimensions.length }

def Declaration.measurement (d : Declaration κ Value) : Measurement κ Value Base :=
  { d with measuredValue := d.initializeValue }

/-- The dict that `as_base_types` starts from when nothing is cached. -/
def Measurement.describe (m : Measurement κ Value Base) : BaseDict Base where
  name := m.name
  outcome := m.outcome.name
  validators := if m.validators = [] then none else some (m.validators.map (·.text))
  conditionalValidators := if m.conditionalValidators = [] then none
    else some (m.conditionalValidators.map fun cv ↦ (cv.1, cv.2.text))
  dimensions := if m.dimensions = [] then none else some m.dimensions
  units := m.units
  docstring := m.docstring.filter (· ≠ "")

/-! ## Statements -/

/-- A measurement, and the number of calls of user code and readings of the
clock so far. -/
structure Measuring (κ Value Base : Type) where
  measurement : Measurement κ Value Base
  moment : ℕ := 1

abbrev Stmt (κ Value Base : Type) := Act (Measuring κ Value Base) PyExc

namespace Measuring

def map (f : Measurement κ Value Base → Measurement κ Value Base) (s : Measuring κ Value Base) :
    Measuring κ Value Base :=
  { s with measurement := f s.measurement }

def mapValue (f : AnyMeasuredValue κ Value Base → AnyMeasuredValue κ Value Base) :
    Measuring κ Value Base → Measuring κ Value Base :=
  map fun m ↦ { m with measuredValue := f m.measuredValue }

end Measuring

def setOutcome (o : MeasurementOutcome) : Stmt κ Value Base Unit :=
  Act.modify (Measuring.map fun m ↦ { m with outcome := o })

def liftExcept {α : Type} : Except PyExc α → Stmt κ Value Base α
  | .ok a => pure a
  | .error e => Act.raise e

@[simp] theorem wp_liftExcept {α : Type} {r : Except PyExc α}
    {Q : α → Measuring κ Value Base → Prop} {E : PyExc → Measuring κ Value Base → Prop} :
    Act.wp (liftExcept r) Q E = match r with
      | .ok a => Q a
      | .error e => E e := by
  cases r <;> rfl

/-- Call a callable of the user, or read the clock. -/
def callAt {α : Type} (f : ℕ → α) : Stmt κ Value Base α := fun s ↦
  (.ok (f s.moment), { s with moment := s.moment + 1 })

@[simp] theorem wp_callAt {α : Type} {f : ℕ → α} {Q : α → Measuring κ Value Base → Prop}
    {E : PyExc → Measuring κ Value Base → Prop} :
    Act.wp (callAt f) Q E = fun s ↦ Q (f s.moment) { s with moment := s.moment + 1 } := rfl

def callRaising {α : Type} (f : ℕ → Except PyExc α) : Stmt κ Value Base α := do
  liftExcept (← callAt f)

/-- `all(v(self._measured_value.value) for v in self.validators)`. -/
def allValid : List (Validator κ Value) → Stmt κ Value Base Bool
  | [] => pure true
  | v :: vs => do
    let x ← liftExcept (← Act.gets (·.measurement.measuredValue.value))
    if ← callRaising (v.call · x) then allValid vs else pure false

def anyMarginal : List (Validator κ Value) → Stmt κ Value Base Bool
  | [] => pure false
  | v :: vs => do
    match v.isMarginal with
    | none => anyMarginal vs
    | some isMarginal =>
      let x ← liftExcept (← Act.gets (·.measurement.measuredValue.value))
      if ← callRaising (isMarginal · x) then pure true else anyMarginal vs

/-- The `finally` of `validate`. -/
def patchCachedOutcome : Stmt κ Value Base Unit :=
  Act.modify (Measuring.map fun m ↦
    { m with cached := m.cached.map fun d ↦ { d with outcome := m.outcome.name } })

def validate : Stmt κ Value Base Unit :=
  Act.finally'
    (Act.catching
      (do
        let m ← Act.gets (·.measurement)
        if ← allValid m.validators then
          setOutcome .PASS
          if ← anyMarginal m.validators then
            Act.modify (Measuring.map fun m ↦ { m with marginal := true })
        else setOutcome .FAIL)
      fun e ↦ do
        if e.isException then setOutcome .FAIL
        Act.raise e)
    patchCachedOutcome

/-- `Measurement.notify_value_set`; the callback of the phase state wakes those
who watch the test. -/
def notifyValueSet : Stmt κ Value Base Unit := do
  let m ← Act.gets (·.measurement)
  if m.dimensions ≠ [] then setOutcome .PARTIALLY_SET else validate

def transform (v : Value) : Stmt κ Value Base Value := do
  match (← Act.gets (·.measurement)).transformFn with
  | none => pure v
  | some f => callRaising (f · v)

variable (conv : Conversion κ Value Base)

/-- `MeasuredValue.set`. -/
def setPlain (v : Value) : Stmt κ Value Base Unit := do
  match ← Act.gets (·.measurement.measuredValue) with
  | .dimensioned _ =>
    Act.raise (.ofClass .AttributeError
      "'DimensionedMeasuredValue' object has no attribute 'set'")
  | .plain m =>
    let v ← transform v
    Act.modify (Measuring.mapValue fun _ ↦ .plain { m with storedValue := some v })
    let base ← liftExcept (conv.value v)
    Act.modify (Measuring.mapValue fun _ ↦ .plain ⟨some v, true, some base⟩)

/-- `Collection.__setitem__`. -/
def setItem (v : Value) : Stmt κ Value Base Unit := do
  let m ← Act.gets (·.measurement)
  if m.dimensions ≠ [] then
    Act.raise (.ofClass .InvalidDimensionsError
      "Cannot set dimensioned measurement without indices")
  else
    setPlain conv v
    notifyValueSet
    let now ← callAt id
    Act.modify (Measuring.map fun m ↦ { m with setTimeMillis := some now })

variable [DecidableEq κ]

/-- The rows that are cached when the value `v` is set at the coordinates `key`. -/
def cacheRow (d : DimensionedMeasuredValue κ Value Base) (key : κ) (v : Value) :
    Except PyExc (Option (List Base)) :=
  if d.valueDict.any (·.1 = key) then .ok none
  else
    match d.cachedBasetypeValues with
    | none => .ok none
    | some rows =>
      match conv.item key v with
      | .ok row => .ok (some (rows ++ [row]))
      | .error e =>
        .error (if e.isinstance .TypeError then .ofClass .InvalidDimensionsError
          s!"Mutable objects cannot be used as measurement dimensions: {e.message}" else e)

/-- `DimensionedMeasuredValue.__setitem__`. -/
def setCoordinates (c : Coordinates κ) (v : Value) : Stmt κ Value Base Unit := do
  match ← Act.gets (·.measurement.measuredValue) with
  | .plain _ =>
    Act.raise (.ofClass .TypeError "'MeasuredValue' object does not support item assignment")
  | .dimensioned d =>
    if c.len ≠ d.numDimensions then
      Act.raise (.ofClass .InvalidDimensionsError
        s!"Expected {d.numDimensions}-dimensional coordinates, got {c.len}")
    else if !c.hashable then
      Act.raise (.ofClass .InvalidDimensionsError
        "Mutable objects cannot be used as measurement dimensions: unhashable type")
    else
      let rows ← liftExcept (cacheRow conv d c.key v)
      let d := { d with cachedBasetypeValues := rows }
      Act.modify (Measuring.mapValue fun _ ↦ .dimensioned d)
      let v ← transform v
      Act.modify (Measuring.mapValue fun _ ↦
        .dimensioned { d with valueDict := dictSet c.key v d.valueDict })
      if d.notifyValueSet then notifyValueSet

def setNotify (b : Bool) : AnyMeasuredValue κ Value Base → AnyMeasuredValue κ Value Base
  | .plain v => .plain v
  | .dimensioned d => .dimensioned { d with notifyValueSet := b }

/-- `measurements.name[coordinates] = value` on a `Collection`, which gives a
dimensioned value after installing the notification. -/
def collectionSetCoordinates (c : Coordinates κ) (v : Value) : Stmt κ Value Base Unit := do
  Act.modify (Measuring.mapValue (setNotify true))
  setCoordinates conv c v

omit [DecidableEq κ]

/-- `Collection.set_measurement_outcome_to_skipped`. -/
def setMeasurementOutcomeToSkipped : Stmt κ Value Base Unit := do
  let m ← Act.gets (·.measurement)
  if m.measuredValue.isValueSet then
    Act.raise (.ofClass .ValueError s!"Measurement {m.name} has been set, cannot skip it.")
  else setOutcome .SKIPPED

/-- One round of the loop of `PhaseState._finalize_measurements`. -/
def finalize (phaseSkipped : Bool) : Stmt κ Value Base Unit := do
  Act.modify (Measuring.mapValue (setNotify false))
  if phaseSkipped && (← Act.gets (·.measurement)).outcome == .UNSET then setOutcome .SKIPPED
  if (← Act.gets (·.measurement)).outcome == .PARTIALLY_SET then
    Act.catching validate fun e ↦ if e.isException then pure () else Act.raise e

def convertItems : List (κ × Value) → Except PyExc (List Base)
  | [] => .ok []
  | (key, v) :: items => do
    let row ← conv.item key v
    let rows ← convertItems items
    pure (row :: rows)

/-- `basetype_value`, of a value that is set. -/
def basetypeValue : Stmt κ Value Base (Option (Base ⊕ List Base)) := do
  match ← Act.gets (·.measurement.measuredValue) with
  | .plain v => pure (v.cachedValue.map .inl)
  | .dimensioned d =>
    match d.cachedBasetypeValues with
    | some rows => pure (some (.inr rows))
    | none =>
      let rows ← liftExcept (convertItems conv d.valueDict)
      Act.modify (Measuring.mapValue fun _ ↦
        .dimensioned { d with cachedBasetypeValues := some rows })
      pure (some (.inr rows))

def asBaseTypes : Stmt κ Value Base (BaseDict Base) := do
  Act.modify (Measuring.map fun m ↦ { m with cached := some (m.cached.getD m.describe) })
  if (← Act.gets (·.measurement)).measuredValue.isValueSet then
    let value ← basetypeValue conv
    Act.modify (Measuring.map fun m ↦
      { m with cached := m.cached.map fun d ↦ { d with measuredValue := value } })
  Act.gets fun s ↦ s.measurement.cached.getD s.measurement.describe

/-! ## Runs -/

inductive Op (κ Value : Type) where
  | setItem (v : Value)
  | setCoordinates (c : Coordinates κ) (v : Value)
  | setCoordinatesDirectly (c : Coordinates κ) (v : Value)
  | skip
  | validate
  | finalize (phaseSkipped : Bool)
  | asBaseTypes

def Op.execute : Op κ Value → Stmt κ Value Base Unit
  | setItem v => Measurements.setItem conv v
  | setCoordinates c v => collectionSetCoordinates conv c v
  | setCoordinatesDirectly c v => Measurements.setCoordinates conv c v
  | skip => setMeasurementOutcomeToSkipped
  | validate => Measurements.validate
  | finalize phaseSkipped => Measurements.finalize phaseSkipped
  | asBaseTypes => do
    let _ ← Measurements.asBaseTypes conv

/-- What raises leaves the state that it has reached. -/
def Op.step (op : Op κ Value) (s : Measuring κ Value Base) : Measuring κ Value Base :=
  (op.execute conv s).2

def run : List (Op κ Value) → Measuring κ Value Base → Measuring κ Value Base
  | [], s => s
  | op :: ops, s => run ops (op.step conv s)

/-! ## Rules -/

section Rules

open Act

omit [DecidableEq κ]

/-- The measurement is the same before and after. -/
def SameMeasurement (s s' : Measuring κ Value Base) : Prop := s'.measurement = s.measurement

instance : Std.Refl (SameMeasurement : Measuring κ Value Base → Measuring κ Value Base → Prop) where
  refl _ := rfl

instance : IsTrans (Measuring κ Value Base) SameMeasurement where
  trans _ _ _ h h' := h'.trans h

theorem same_liftExcept {α : Type} (r : Except PyExc α) :
    Within SameMeasurement (liftExcept r : Stmt κ Value Base α) := by
  cases r with
  | ok a => exact .pure
  | error e => exact .raise

theorem same_callRaising {α : Type} (f : ℕ → Except PyExc α) :
    Within SameMeasurement (callRaising f : Stmt κ Value Base α) :=
  .bind (fun _ ↦ rfl) fun r ↦ same_liftExcept r

theorem same_allValid (vs : List (Validator κ Value)) :
    Within SameMeasurement (allValid vs : Stmt κ Value Base Bool) := by
  induction vs with
  | nil => exact .pure
  | cons v vs ih =>
      refine .bind .gets fun x ↦ .bind (same_liftExcept x) fun x ↦ .bind (same_callRaising _) fun b ↦ ?_
      exact .ite (fun _ ↦ ih) fun _ ↦ .pure

theorem same_anyMarginal (vs : List (Validator κ Value)) :
    Within SameMeasurement (anyMarginal vs : Stmt κ Value Base Bool) := by
  induction vs with
  | nil => exact .pure
  | cons v vs ih =>
      rw [anyMarginal]
      cases v.isMarginal with
      | none => exact ih
      | some isMarginal =>
          refine .bind .gets fun x ↦ .bind (same_liftExcept x) fun x ↦ .bind (same_callRaising _) fun b ↦ ?_
          exact .ite (fun _ ↦ .pure) fun _ ↦ ih

/-- What `transform_fn` makes of a value at a moment. -/
def Declaration.transformed (d : Declaration κ Value) (moment : ℕ) (v : Value) : Except PyExc Value :=
  match d.transformFn with
  | none => .ok v
  | some f => f moment v

@[simp] theorem Measuring.mapValue_transformed (s : Measuring κ Value Base)
    (f : AnyMeasuredValue κ Value Base → AnyMeasuredValue κ Value Base) (moment : ℕ) (v : Value) :
    (s.mapValue f).measurement.transformed moment v = s.measurement.transformed moment v := rfl

@[simp] theorem Measuring.mapValue_moment (s : Measuring κ Value Base)
    (f : AnyMeasuredValue κ Value Base → AnyMeasuredValue κ Value Base) :
    (s.mapValue f).moment = s.moment := rfl

theorem wp_transform {Q : Value → Measuring κ Value Base → Prop}
    {E : PyExc → Measuring κ Value Base → Prop} {v : Value} {s : Measuring κ Value Base} :
    wp (transform v) Q E s ↔
      match s.measurement.transformed s.moment v with
      | .ok w => Q w { s with moment := s.moment + if s.measurement.transformFn.isSome then 1 else 0 }
      | .error e => E e { s with moment := s.moment + 1 } := by
  unfold transform Declaration.transformed
  cases h : s.measurement.transformFn with
  | none => simp [h]
  | some f =>
      simp only [wp_bind, wp_gets, h, callRaising, wp_callAt]
      cases f s.moment v <;> simp [liftExcept]

/-- A statement keeps a property of the measurement, whether it returns or raises. -/
def Keeps {α : Type} (P : Measurement κ Value Base → Prop) (x : Stmt κ Value Base α) : Prop :=
  Safe (fun s ↦ P s.measurement) (fun _ s ↦ P s.measurement) x

theorem keeps_of_same {α : Type} {P : Measurement κ Value Base → Prop} {x : Stmt κ Value Base α}
    (h : Within SameMeasurement x) : Keeps P x := by
  intro _ hs
  refine (h.wp _).mono (fun _ s' h' ↦ ?_) (fun _ s' h' ↦ ?_)
  · exact h'.symm ▸ hs
  · exact h'.symm ▸ hs

theorem keeps_map {P : Measurement κ Value Base → Prop}
    {f : Measurement κ Value Base → Measurement κ Value Base} (h : ∀ m, P m → P (f m)) :
    Keeps P (Act.modify (Measuring.map f) : Stmt κ Value Base Unit) :=
  .modify fun _ hs ↦ h _ hs

theorem value_setNotify (b : Bool) (v : AnyMeasuredValue κ Value Base) :
    (setNotify b v).value = v.value := by
  cases v with
  | plain v => rfl
  | dimensioned d => obtain ⟨n, notify, _ | ⟨item, items⟩, rows'⟩ := d <;> rfl

end Rules

end Measurements

end OpenHtf
