import OpenHtf.PhaseFrame

/-!
# Automatic skips

`skip_phase` and `skip_checkpoint` leave one record that says SKIP, and no phase
or checkpoint that comes later changes it.
-/

set_option autoImplicit false

namespace OpenHtf

open Act

/-- The phase record is one of a skip of `p`. -/
structure PhaseRecord.Skips (p : PhaseDescriptor) (r : PhaseRecord) : Prop where
  descriptorId : r.descriptorId = p.id
  name : r.name = p.name
  outcome : r.outcome = some .SKIP

/-- The record of a phase or a checkpoint with the number `k` is one of a skip. -/
def PhaseNode.SkipRecorded (k : ℕ) (r : TestRecord) : PhaseNode → Prop
  | .phase p => ∃ x, r.phases[k]? = some x ∧ x.Skips p
  | .checkpoint c => ∃ x, r.checkpoints[k]? = some x ∧ x.name = c.name ∧ x.result = .result .SKIP
  | _ => False

/-- Records are added, and those of skips stay as they are. -/
structure SkipsLast (s s' : RunState) : Prop where
  phases : SkipsKept s.testRecord.phases s'.testRecord.phases
  checkpoints : s.testRecord.checkpoints <+: s'.testRecord.checkpoints

theorem SkipsLast.of_eq {s s' : RunState} (hphases : s'.testRecord.phases = s.testRecord.phases)
    (hcheckpoints : s'.testRecord.checkpoints = s.testRecord.checkpoints) : SkipsLast s s' :=
  ⟨hphases ▸ .refl _, hcheckpoints ▸ List.prefix_rfl⟩

instance : Std.Refl SkipsLast where
  refl _ := .of_eq rfl rfl

instance : IsTrans RunState SkipsLast where
  trans _ _ _ h h' := ⟨h.phases.trans h'.phases, h.checkpoints.trans h'.checkpoints⟩

theorem PhaseFrame.skipsLast {s s' : RunState} (h : PhaseFrame s s') : SkipsLast s s' :=
  ⟨h.phases, h.checkpoints ▸ List.prefix_rfl⟩

theorem SkipsLast.skipRecorded {s s' : RunState} (h : SkipsLast s s') {n : PhaseNode} {k : ℕ}
    (hn : n.SkipRecorded k s.testRecord) : n.SkipRecorded k s'.testRecord := by
  cases n with
  | phase p =>
      obtain ⟨x, hx, hskip⟩ := hn
      exact ⟨x, h.phases.skips k x hx hskip.outcome, hskip⟩
  | checkpoint c =>
      obtain ⟨x, hx, hname, hskip⟩ := hn
      refine ⟨x, ?_, hname, hskip⟩
      obtain ⟨hk, -⟩ := List.getElem?_eq_some_iff.mp hx
      rw [← hx, List.prefix_iff_getElem?.mp h.checkpoints k hk, List.getElem?_eq_getElem hk]
  | _ => exact hn

/-! ## The end of a phase that never started -/

theorem finalizeMeasurementList_skipped {ms : List Measurement} (h : ∀ m ∈ ms, m.outcome = .UNSET)
    (s : RunState) :
    finalizeMeasurementList true ms s = (.ok (ms.map fun m ↦ { m with outcome := .SKIPPED }), s) := by
  induction ms with
  | nil => rfl
  | cons m ms ih =>
      obtain ⟨hm, hms⟩ := List.forall_mem_cons.mp h
      have hone : finalizeMeasurement true m s = (.ok { m with outcome := .SKIPPED }, s) := by
        simp [finalizeMeasurement, hm]
      simp [finalizeMeasurementList, hone, andThen, ih hms]

theorem setPrediagnosisPhaseOutcome_skipped {p : PhaseState} (conf : Conf)
    (hresult : p.phaseRecord.result = some (.result .SKIP)) (hlimit : p.hitRepeatLimit = false) :
    p.setPrediagnosisPhaseOutcome conf = p.setOutcome .SKIP := by
  unfold PhaseState.setPrediagnosisPhaseOutcome
  rw [hresult]
  simp [hlimit, PhaseExecutionOutcome.isTerminal, PhaseExecutionOutcome.raisedException,
    PhaseExecutionOutcome.isTimeout, PhaseExecutionOutcome.isSkip]

theorem setPostdiagnosisPhaseOutcome_skipped {p : PhaseState}
    (hresult : p.phaseRecord.result = some (.result .SKIP)) (houtcome : p.phaseRecord.outcome = some .SKIP) :
    p.setPostdiagnosisPhaseOutcome = p := by
  unfold PhaseState.setPostdiagnosisPhaseOutcome
  simp [hresult, houtcome, PhaseExecutionOutcome.isTerminal, PhaseExecutionOutcome.raisedException,
    PhaseExecutionOutcome.isTimeout]

theorem finalizePhase_skipped (env : Env) (p : PhaseDescriptor) {s : RunState}
    (hid : s.phaseState.phaseRecord.descriptorId = p.id) (hname : s.phaseState.phaseRecord.name = p.name)
    (hresult : s.phaseState.phaseRecord.result = some (.result .SKIP))
    (hunset : ∀ m ∈ s.phaseState.measurements, m.outcome = .UNSET)
    (hlimit : s.phaseState.hitRepeatLimit = false) :
    wp (finalizePhase env)
      (fun _ s' ↦ s'.testState = s.testState ∧ s'.phaseState.phaseRecord.Skips p) (fun _ _ ↦ False) s := by
  let ms := s.phaseState.measurements.map fun m ↦ { m with outcome := .SKIPPED }
  let p₁ : PhaseState := { s.phaseState with measurements := ms, phaseRecord.measurements := ms }
  have hmeasurements : finalizeMeasurements s = (.ok (), { s with phaseState := p₁ }) := by
    have hlist := finalizeMeasurementList_skipped hunset s
    simp [finalizeMeasurements, hresult, PhaseExecutionOutcome.isSkip, hlist, andThen, RunState.mapPhaseState,
      p₁, ms]
  have hpre : p₁.setPrediagnosisPhaseOutcome env.conf = p₁.setOutcome .SKIP :=
    setPrediagnosisPhaseOutcome_skipped env.conf hresult hlimit
  have hdiagnosers : executePhaseDiagnosers { s with phaseState := p₁.setOutcome .SKIP } =
      (.ok (), { s with phaseState := p₁.setOutcome .SKIP }) := by
    simp [executePhaseDiagnosers, p₁, PhaseState.setOutcome, hresult, andThen, PhaseExecutionOutcome.isSkip]
  have hpost : (p₁.setOutcome .SKIP).setPostdiagnosisPhaseOutcome = p₁.setOutcome .SKIP :=
    setPostdiagnosisPhaseOutcome_skipped hresult rfl
  simp only [finalizePhase, timeMillis, wp_bind, wp_modify, wp_callUser]
  rw [wp_eq_of_ok hmeasurements]
  simp only [RunState.mapPhaseState, hpre]
  rw [wp_eq_of_ok hdiagnosers]
  simp only [hpost]
  exact ⟨trivial, hid, hname, rfl⟩

/-! ## Skips -/

/-- If `skip_phase` returns, then it has added one record, which says SKIP. -/
theorem skipPhase_recorded (env : Env) (p : PhaseDescriptor) (rec : Option SubtestRecord) (s : RunState) :
    wp (skipPhase env p rec)
      (fun _ s' ↦ s'.testRecord.phases.length = s.testRecord.phases.length + 1 ∧
        (PhaseNode.phase p).SkipRecorded s.testRecord.phases.length s'.testRecord)
      (fun _ _ ↦ True) s := by
  simp only [skipPhase, enterPhase, leavePhase, timeMillis, noteStep, wp_bind, wp_shared, wp_ite, wp_raise,
    wp_callUser, wp_modify, wp_catching]
  split
  · trivial
  refine (finalizePhase_skipped env p ?_ ?_ ?_ ?_ ?_).mono ?_ fun _ _ hf ↦ hf.elim
  · rfl
  · rfl
  · rfl
  · intro m hm
    obtain ⟨m', hm', rfl⟩ := List.mem_map.mp hm
    exact p.measurements_unset m' hm'
  · rfl
  · rintro - s' ⟨hstate, hskips⟩
    have hphases : s'.testRecord.phases = s.testRecord.phases := congrArg (·.testRecord.phases) hstate
    rw [← hphases]
    exact ⟨List.length_append, s'.phaseState.phaseRecord, List.getElem?_concat_length, hskips⟩

theorem skipCheckpoint_recorded (c : Checkpoint) (rec : Option SubtestRecord) (s : RunState) :
    wp (skipCheckpoint c rec)
      (fun _ s' ↦ s'.testRecord.checkpoints.length = s.testRecord.checkpoints.length + 1 ∧
        (PhaseNode.checkpoint c).SkipRecorded s.testRecord.checkpoints.length s'.testRecord)
      (fun _ _ ↦ True) s := by
  simp only [skipCheckpoint, addCheckpointRecord, timeMillis, noteStep, wp_bind, wp_callUser, wp_modify]
  exact ⟨List.length_append, _, List.getElem?_concat_length, rfl, rfl⟩

/-! ## What comes later -/

/-- The record of a checkpoint is added to those that are there. -/
theorem skipsLast_addCheckpointRecord {s : RunState} (r : CheckpointRecord) :
    SkipsLast s (s.mapTestRecord (·.addCheckpointRecord r)) :=
  ⟨.refl _, List.prefix_append _ _⟩

theorem skipsLast_evaluateCheckpoint (c : Checkpoint) (rec : Option SubtestRecord) :
    Within SkipsLast (evaluateCheckpoint c rec) :=
  within_evaluateCheckpoint (fun _ _ ↦ .of_eq rfl rfl) (fun _ _ _ ↦ .of_eq rfl rfl)
    (fun _ _ ↦ skipsLast_addCheckpointRecord _) c rec

theorem skipsLast_skipCheckpoint (c : Checkpoint) (rec : Option SubtestRecord) :
    Within SkipsLast (skipCheckpoint c rec) :=
  within_skipCheckpoint (fun _ _ ↦ .of_eq rfl rfl) (fun _ _ _ ↦ .of_eq rfl rfl)
    (fun _ _ ↦ skipsLast_addCheckpointRecord _) c rec

end OpenHtf
