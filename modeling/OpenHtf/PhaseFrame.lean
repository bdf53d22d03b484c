import OpenHtf.PhaseRules

/-!
# What a phase leaves alone

The frame of the phase executor.  The end of a phase touches neither the shared
state nor the phase records; a phase touches no part of the test state but the
phase records, the checkpoint records and the diagnoses.
-/

set_option autoImplicit false

namespace OpenHtf

open Act

def RunState.result (s : RunState) : Option PhaseExecutionOutcome := s.phaseState.phaseRecord.result

/-- The test state without what phases and checkpoints write to it. -/
def TestState.outsidePhases (t : TestState) : TestState :=
  { t with
    diagnosesStore := {}
    testRecord := { t.testRecord with
      phases := []
      checkpoints := []
      diagnoses := []
      cachedPhases := []
      cachedCheckpoints := []
      cachedDiagnoses := [] } }

/-- The result that a phase is left with when it ended with the result `r`: the
same one, or STOP, or an exception of a validator or a diagnoser. -/
def ResultFrom (r r' : PhaseExecutionOutcome) : Prop :=
  r' = r ∨ r' = .result .STOP ∨ ∃ e, r' = .raised e

/-- What the end of a phase keeps. -/
structure EndFrame (s s' : RunState) : Prop where
  testState : s'.testState.outsidePhases = s.testState.outsidePhases
  phases : s'.testRecord.phases = s.testRecord.phases
  checkpoints : s'.testRecord.checkpoints = s.testRecord.checkpoints
  sync : s'.sync = s.sync
  steps : s.steps <+: s'.steps
  result : ∀ r, s.result = some r → ∃ r', s'.result = some r' ∧ ResultFrom r r'

/-- Records of phases may be added and changed, but not those of skipped phases. -/
structure SkipsKept (l l' : List PhaseRecord) : Prop where
  length : l.length ≤ l'.length
  skips : ∀ (i : ℕ) (r : PhaseRecord), l[i]? = some r → r.outcome = some .SKIP → l'[i]? = some r

theorem SkipsKept.refl (l : List PhaseRecord) : SkipsKept l l := ⟨Nat.le_refl _, fun _ _ h _ ↦ h⟩

theorem SkipsKept.trans {l l' l'' : List PhaseRecord} (h : SkipsKept l l') (h' : SkipsKept l' l'') :
    SkipsKept l l'' :=
  ⟨Nat.le_trans h.length h'.length, fun i r hr hs ↦ h'.skips i r (h.skips i r hr hs) hs⟩

theorem skipsKept_append (l : List PhaseRecord) (r : PhaseRecord) : SkipsKept l (l ++ [r]) := by
  refine ⟨by simp, fun i r' h _ ↦ ?_⟩
  rw [List.getElem?_append_left (List.getElem?_eq_some_iff.mp h).1]
  exact h

/-- `_should_repeat` changes the last record when its outcome is FAIL. -/
theorem skipsKept_replace_last {l : List PhaseRecord} {last last' : PhaseRecord}
    (hl : l.getLast? = some last) (hfail : last.outcome = some .FAIL) :
    SkipsKept l (l.dropLast ++ [last']) := by
  obtain ⟨init, rfl⟩ := List.getLast?_eq_some_iff.mp hl
  rw [List.dropLast_concat]
  refine ⟨by simp, fun i r h hs ↦ ?_⟩
  by_cases hi : i < init.length
  · rwa [List.getElem?_append_left hi] at h ⊢
  · obtain ⟨hlen, rfl⟩ := List.getElem?_eq_some_iff.mp h
    obtain rfl : i = init.length := by simp at hlen; omega
    simp [hfail] at hs

/-- What the execution of a phase keeps. -/
structure PhaseFrame (s s' : RunState) : Prop where
  testState : s'.testState.outsidePhases = s.testState.outsidePhases
  checkpoints : s'.testRecord.checkpoints = s.testRecord.checkpoints
  phases : SkipsKept s.testRecord.phases s'.testRecord.phases
  steps : s.steps <+: s'.steps

theorem EndFrame.phaseFrame {s s' : RunState} (h : EndFrame s s') : PhaseFrame s s' :=
  ⟨h.testState, h.checkpoints, h.phases ▸ .refl _, h.steps⟩

instance : Std.Refl EndFrame where
  refl _ := ⟨rfl, rfl, rfl, rfl, List.prefix_rfl, fun r h ↦ ⟨r, h, .inl rfl⟩⟩

instance : IsTrans RunState EndFrame where
  trans _ _ _ h h' := by
    refine ⟨h'.testState.trans h.testState, h'.phases.trans h.phases,
      h'.checkpoints.trans h.checkpoints, h'.sync.trans h.sync, h.steps.trans h'.steps, fun r hr ↦ ?_⟩
    obtain ⟨r', hr', hfrom⟩ := h.result r hr
    obtain ⟨r'', hr'', hfrom'⟩ := h'.result r' hr'
    rcases hfrom' with rfl | hstop
    · exact ⟨r'', hr'', hfrom⟩
    · exact ⟨r'', hr'', .inr hstop⟩

instance : Std.Refl PhaseFrame where
  refl _ := ⟨rfl, rfl, .refl _, List.prefix_rfl⟩

instance : IsTrans RunState PhaseFrame where
  trans _ _ _ h h' := ⟨h'.testState.trans h.testState, h'.checkpoints.trans h.checkpoints,
    h.phases.trans h'.phases, h.steps.trans h'.steps⟩

/-! ## The end of a phase -/

theorem PhaseState.result_setPrediagnosisPhaseOutcome (conf : Conf) (p : PhaseState) :
    (p.setPrediagnosisPhaseOutcome conf).phaseRecord.result = p.phaseRecord.result ∨
      (p.setPrediagnosisPhaseOutcome conf).phaseRecord.result = some (.result .STOP) := by
  unfold setPrediagnosisPhaseOutcome
  split
  · exact .inl rfl
  · dsimp only
    split_ifs
    all_goals first | exact .inl rfl | exact .inr rfl

theorem endFrame_mapPhaseState {f : PhaseState → PhaseState}
    (h : ∀ p r, p.phaseRecord.result = some r →
      ∃ r', (f p).phaseRecord.result = some r' ∧ ResultFrom r r') :
    Within EndFrame (Act.modify (RunState.mapPhaseState f) : Exec Unit) :=
  .modify fun s ↦ ⟨rfl, rfl, rfl, rfl, List.prefix_rfl, h s.phaseState⟩

theorem endFrame_noteStep {x : Step} : Within EndFrame (noteStep x) :=
  .modify fun _ ↦ ⟨rfl, rfl, rfl, rfl, List.prefix_append _ _, fun r h ↦ ⟨r, h, .inl rfl⟩⟩

theorem endFrame_acceptPhaseDiagnosis (d : Diagnosis) :
    Within EndFrame (acceptPhaseDiagnosis d) := by
  have hstate : Within EndFrame (Act.modify (RunState.mapPhaseState (·.addDiagnosis d)) : Exec Unit) := by
    refine endFrame_mapPhaseState fun p r hr ↦ ⟨r, ?_, .inl rfl⟩
    unfold PhaseState.addDiagnosis
    split <;> exact hr
  have hrecord : Within EndFrame (recordDiagnosis d) :=
    .modify fun _ ↦ ⟨rfl, rfl, rfl, rfl, List.prefix_rfl, fun r h ↦ ⟨r, h, .inl rfl⟩⟩
  have hstore : Within EndFrame (storeDiagnosis d) :=
    .modify fun _ ↦ ⟨rfl, rfl, rfl, rfl, List.prefix_rfl, fun r h ↦ ⟨r, h, .inl rfl⟩⟩
  exact .bind endFrame_noteStep fun _ ↦ .bind hstate fun _ ↦
    .ite (fun _ ↦ .bind hrecord fun _ ↦ hstore) fun _ ↦ hstore

theorem endKept_endFrame : EndKept EndFrame where
  callUser _ _ := ⟨rfl, rfl, rfl, rfl, List.prefix_rfl, fun r h ↦ ⟨r, h, .inl rfl⟩⟩
  raised _ := endFrame_noteStep
  phaseState _ _ hresult := endFrame_mapPhaseState fun p r hr ↦ ⟨r, (hresult p).trans hr, .inl rfl⟩
  setRaised e := endFrame_mapPhaseState fun _ _ _ ↦ ⟨_, rfl, .inr (.inr ⟨e, rfl⟩)⟩
  prediagnosis conf := endFrame_mapPhaseState fun p r hr ↦
    (p.result_setPrediagnosisPhaseOutcome conf).elim (fun h ↦ ⟨r, h.trans hr, .inl rfl⟩)
      fun h ↦ ⟨_, h, .inr (.inl rfl)⟩
  accept := endFrame_acceptPhaseDiagnosis

theorem endFrame_finalizePhase (env : Env) : Within EndFrame (finalizePhase env) :=
  endKept_endFrame.finalizePhase env

/-! ## Phases and checkpoints -/

section Phase

variable (env : Env)

theorem phaseFrame_callUser {α : Type} (f : ℕ → α) : Within PhaseFrame (callUser f) :=
  fun _ ↦ ⟨rfl, rfl, .refl _, List.prefix_rfl⟩

theorem phaseFrame_noteStep {x : Step} : Within PhaseFrame (noteStep x) :=
  endFrame_noteStep.weaken fun _ _ h ↦ h.phaseFrame

theorem phaseFrame_shared {α : Type} (op : Sync → α × Sync) : Within PhaseFrame (shared env op) :=
  fun _ ↦ ⟨rfl, rfl, .refl _, List.prefix_rfl⟩

theorem phaseFrame_enterPhase (p : PhaseDescriptor) : Within PhaseFrame (enterPhase env p) :=
  .bind (phaseFrame_shared env _) fun _ ↦ .ite (fun _ ↦ .raise) fun _ ↦
    .bind (phaseFrame_callUser _) fun _ ↦ .bind phaseFrame_noteStep fun _ ↦
    .modify fun _ ↦ ⟨rfl, rfl, .refl _, List.prefix_rfl⟩

theorem phaseFrame_leavePhase : Within PhaseFrame (leavePhase env) :=
  .bind (.catching ((endFrame_finalizePhase env).weaken fun _ _ h ↦ h.phaseFrame) fun _ ↦
      .bind phaseFrame_noteStep fun _ ↦ .raise) fun _ ↦
    .bind (.modify fun _ ↦ ⟨rfl, rfl, skipsKept_append _ _, List.prefix_rfl⟩) fun _ ↦
    phaseFrame_shared env _

theorem phaseKept_phaseFrame : PhaseKept env PhaseFrame where
  shared := phaseFrame_shared env
  noteThread _ := .modify fun _ ↦ ⟨rfl, rfl, .refl _, List.prefix_rfl⟩
  callUser := phaseFrame_callUser
  noteStep _ _ := phaseFrame_noteStep
  phaseState _ _ := .modify fun _ ↦ ⟨rfl, rfl, .refl _, List.prefix_rfl⟩
  enterPhase := phaseFrame_enterPhase env
  leavePhase := phaseFrame_leavePhase env
  lastRepeatFailed := within_lastRepeatFailed (fun _ ↦ phaseFrame_noteStep) fun _ _ hl hf ↦
    ⟨rfl, rfl, skipsKept_replace_last hl hf, List.prefix_append _ _⟩

theorem phaseFrame_executePhase (p : PhaseDescriptor) (rec : Option SubtestRecord) :
    Within PhaseFrame (executePhase env p rec) := (phaseKept_phaseFrame env).rounds.executePhase p rec

theorem phaseFrame_skipPhase (p : PhaseDescriptor) (rec : Option SubtestRecord) :
    Within PhaseFrame (skipPhase env p rec) := (phaseKept_phaseFrame env).skipPhase p rec

end Phase

end OpenHtf
