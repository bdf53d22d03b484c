import OpenHtf.PhaseExecutor

/-!
# Measurements of earlier phases

`TestState.get_measurement`: the copy of a measurement of the running phase, or
of the latest phase record with a measurement of that name.
-/

set_option autoImplicit false

namespace OpenHtf

/-- `measurements.ImmutableMeasurement`, as far as a `Measurement` keeps it. -/
structure ImmutableMeasurement where
  name : String
  dimensions : ℕ
  value : String
  outcome : MeasurementOutcome
  deriving DecidableEq

def ImmutableMeasurement.fromMeasurement (m : Measurement) : ImmutableMeasurement where
  name := m.name
  dimensions := m.dimensions
  value := m.measuredValue
  outcome := m.outcome

/-- `measurements[name]` of a dict of measurements by their names. -/
def lookupMeasurement (name : String) (measurements : List Measurement) : Option Measurement :=
  measurements.reverse.find? (·.name == name)

/-- `ignore_outcomes`, among the objects that the `result` and the `outcome` of a
record can be. -/
def ignoreOutcomes : List (PhaseOutcome ⊕ Option PhaseExecutionOutcome) := [.inl .SKIP]

/-- The loop of `get_measurement` over the reversed records. -/
def latestMeasurement (name : String) : List PhaseRecord → Option Measurement
  | [] => none
  | r :: rs =>
    match lookupMeasurement name r.measurements with
    | some m => if !ignoreOutcomes.any (· = .inr r.result) then some m else latestMeasurement name rs
    | none => latestMeasurement name rs

def getMeasurement (name : String) (s : RunState) : Option ImmutableMeasurement :=
  let running :=
    if s.sync.runningPhaseState then lookupMeasurement name s.phaseState.measurements else none
  match running with
  | some m => some (.fromMeasurement m)
  | none => (latestMeasurement name s.testRecord.phases.reverse).map .fromMeasurement

/-! ## Skipped attempts -/

namespace PhaseRecord

def copyOf (name : String) (r : PhaseRecord) : Option ImmutableMeasurement :=
  (lookupMeasurement name r.measurements).map .fromMeasurement

def declares (name : String) (r : PhaseRecord) : Bool :=
  (lookupMeasurement name r.measurements).isSome

end PhaseRecord

def latestRecord (name : String) (phases : List PhaseRecord) : Option PhaseRecord :=
  phases.reverse.find? fun r ↦ r.declares name

def latestNotSkipped (name : String) (phases : List PhaseRecord) : Option PhaseRecord :=
  phases.reverse.find? fun r ↦ r.outcome != some .SKIP && r.declares name

/-- No running phase declares the measurement. -/
def NotRunning (name : String) (s : RunState) : Prop :=
  s.sync.runningPhaseState = true → lookupMeasurement name s.phaseState.measurements = none

/-- What is returned is of the latest record that is not of a skipped attempt. -/
def IgnoresSkipped (name : String) (s : RunState) : Prop :=
  getMeasurement name s = (latestNotSkipped name s.testRecord.phases).bind (·.copyOf name)

/-- If the latest record with the measurement is of a skipped attempt, then the one
before it that is not has a measurement with the same copy. -/
def SkippedUnseen (name : String) (phases : List PhaseRecord) : Prop :=
  ∀ r, latestRecord name phases = some r → r.outcome = some .SKIP →
    ∃ r', latestNotSkipped name phases = some r' ∧ r'.copyOf name = r.copyOf name

/-- No result of a phase is an outcome to be ignored. -/
theorem latestMeasurement_eq (name : String) (records : List PhaseRecord) :
    latestMeasurement name records =
      (records.find? fun r ↦ r.declares name).bind fun r ↦ lookupMeasurement name r.measurements := by
  induction records with
  | nil => rfl
  | cons r rs ih =>
      rw [latestMeasurement, List.find?_cons, PhaseRecord.declares]
      cases hm : lookupMeasurement name r.measurements with
      | none => simpa using ih
      | some m =>
          have hresult : ignoreOutcomes.any (· = .inr r.result) = false := by simp [ignoreOutcomes]
          simp [hresult, hm]

theorem getMeasurement_eq {name : String} {s : RunState} (h : NotRunning name s) :
    getMeasurement name s = (latestRecord name s.testRecord.phases).bind (·.copyOf name) := by
  have hrunning : (if s.sync.runningPhaseState then lookupMeasurement name s.phaseState.measurements
      else none) = none := by
    split
    · rename_i hrun
      exact h hrun
    · rfl
  simp only [getMeasurement, hrunning, latestMeasurement_eq, latestRecord]
  exact Option.map_bind ..

theorem latestRecord_declares {name : String} {phases : List PhaseRecord} {r : PhaseRecord}
    (h : latestRecord name phases = some r) : r.declares name = true := by
  simpa using List.find?_some h

/-- When the latest record with the measurement is not of a skipped attempt, it is
the one that is looked for. -/
theorem latestNotSkipped_of_outcome {name : String} {phases : List PhaseRecord} {r : PhaseRecord}
    (h : latestRecord name phases = some r) (hr : r.outcome ≠ some .SKIP) :
    latestNotSkipped name phases = some r := by
  obtain ⟨hdeclares, before, after, hsplit, hbefore⟩ := List.find?_eq_some_iff_append.mp h
  apply List.find?_eq_some_iff_append.mpr
  refine ⟨by simp [hr, hdeclares], before, after, hsplit, fun r' hr' ↦ ?_⟩
  have hnot : r'.declares name = false := by simpa using hbefore r' hr'
  simp [hnot]

theorem latestNotSkipped_of_none {name : String} {phases : List PhaseRecord}
    (h : latestRecord name phases = none) : latestNotSkipped name phases = none := by
  rw [latestRecord, List.find?_eq_none] at h
  rw [latestNotSkipped, List.find?_eq_none]
  intro r hr
  have hnot : r.declares name = false := by simpa using h r hr
  simp [hnot]

theorem unset_voltage : ∀ m ∈ [({ name := "voltage" } : Measurement)], m.outcome = .UNSET := by simp

/-- A phase that measures a voltage and returns SKIP. -/
def skippedMeasure : PhaseDescriptor where
  id := 1
  name := "measure"
  measurements := [{ name := "voltage" }]
  measurements_unset := unset_voltage
  func := fun _ ↦
    { ends := .returned (some .SKIP)
      endsKilled := .hangs
      measure := List.map fun m ↦ { m with measuredValue := "3", outcome := .PASS } }

def afterSkip : RunState := (executePhase {} skippedMeasure none {}).2

end OpenHtf
