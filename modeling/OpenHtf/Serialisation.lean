import OpenHtf.RunRules
import OpenHtf.TreeRules

/-!
# The events of a run in the dict of its record

Phases, branches, subtests and diagnoses get into the dict that `as_base_types`
returns once each and in order, as long as no exception escapes from the end of a
phase or from a branch and no branch is evaluated inside another one.
Checkpoints never get there.
-/

set_option autoImplicit false

namespace OpenHtf

open Act TestExecutor

/-! ## Events and their entries -/

namespace Step

def phaseEvent : Step → Option (ℕ × ℕ)
  | phaseEntered descriptorId startTimeMillis => some (descriptorId, startTimeMillis)
  | _ => none

def checkpointEvent : Step → Option (String × ℕ)
  | checkpointMet name evaluatedMillis => some (name, evaluatedMillis)
  | _ => none

def branchEvent : Step → Option (Option String × ℕ)
  | branchEvaluated name evaluatedMillis _ => some (name, evaluatedMillis)
  | _ => none

def subtestEvent : Step → Option (Option String × ℕ)
  | subtestCompleted name startTimeMillis => some (name, startTimeMillis)
  | _ => none

/-- A diagnosis that is accepted and not internal. -/
def diagnosisEvent : Step → Option Diagnosis
  | diagnosisAccepted d => if d.isInternal then none else some d
  | _ => none

/-- The record of a branch is lost, or comes after that of a branch that was
evaluated later. -/
def losesBranch : Step → Bool
  | branchLost => true
  | branchEvaluated _ _ inBranch => inBranch
  | _ => false

/-- No entry is made for the event, or not where it belongs. -/
def loses : Step → Bool
  | checkpointMet _ _ => true
  | phaseLost => true
  | x => x.losesBranch

/-- No event of a kind that the caches of the record are filled by. -/
def isSilent (x : Step) : Bool :=
  x.phaseEvent.isNone && x.branchEvent.isNone && x.subtestEvent.isNone && x.diagnosisEvent.isNone

end Step

def PhaseDict.event (d : PhaseDict) : ℕ × ℕ := (d.descriptorId, d.startTimeMillis)

def CheckpointDict.event (d : CheckpointDict) : String × ℕ := (d.name, d.evaluatedMillis)

def BranchDict.event (d : BranchDict) : Option String × ℕ := (d.name, d.evaluatedMillis)

def SubtestDict.event (d : SubtestDict) : Option String × ℕ := (d.name, d.startTimeMillis)

/-- The dict has one entry for each event, in the order of the events. -/
structure TestRecordDict.Tells (d : TestRecordDict) (steps : List Step) : Prop where
  phases : d.phases.map (·.event) = steps.filterMap Step.phaseEvent
  checkpoints : (d.checkpoints.getD []).map (·.event) = steps.filterMap Step.checkpointEvent
  branches : d.branches.map (·.event) = steps.filterMap Step.branchEvent
  subtests : d.subtests.map (·.event) = steps.filterMap Step.subtestEvent
  diagnoses : d.diagnoses = (steps.filterMap Step.diagnosisEvent).map (·.asBaseTypes)

/-! ## What a part of a run adds -/

/-- The caches grow from those of `r` to those of `r'` by the events among `l`. -/
structure Adds (l : List Step) (r r' : TestRecord) : Prop where
  phases : .phaseLost ∉ l →
    r'.cachedPhases.map (·.event) = r.cachedPhases.map (·.event) ++ l.filterMap Step.phaseEvent
  branches : (∀ x ∈ l, x.losesBranch = false) →
    r'.cachedBranches.map (·.event) = r.cachedBranches.map (·.event) ++ l.filterMap Step.branchEvent
  subtests :
    r'.cachedSubtests.map (·.event) = r.cachedSubtests.map (·.event) ++ l.filterMap Step.subtestEvent
  diagnoses : r'.cachedDiagnoses =
    r.cachedDiagnoses ++ (l.filterMap Step.diagnosisEvent).map (·.asBaseTypes)

namespace Adds

variable {l l' : List Step} {r r₁ r₂ : TestRecord}

theorem of_eq (hphases : r₁.cachedPhases = r.cachedPhases) (hbranches : r₁.cachedBranches = r.cachedBranches)
    (hsubtests : r₁.cachedSubtests = r.cachedSubtests) (hdiagnoses : r₁.cachedDiagnoses = r.cachedDiagnoses) :
    Adds [] r r₁ where
  phases _ := by simp [hphases]
  branches _ := by simp [hbranches]
  subtests := by simp [hsubtests]
  diagnoses := by simp [hdiagnoses]

theorem refl (r : TestRecord) : Adds [] r r := of_eq rfl rfl rfl rfl

theorem append (h : Adds l r r₁) (h' : Adds l' r₁ r₂) : Adds (l ++ l') r r₂ where
  phases hl := by
    rw [List.mem_append, not_or] at hl
    rw [h'.phases hl.2, h.phases hl.1, List.filterMap_append, List.append_assoc]
  branches hl := by
    rw [List.forall_mem_append] at hl
    rw [h'.branches hl.2, h.branches hl.1, List.filterMap_append, List.append_assoc]
  subtests := by rw [h'.subtests, h.subtests, List.filterMap_append, List.append_assoc]
  diagnoses := by
    rw [h'.diagnoses, h.diagnoses, List.filterMap_append, List.map_append, List.append_assoc]

theorem phase (p : PhaseRecord) (r : TestRecord) :
    Adds [.phaseEntered p.descriptorId p.startTimeMillis] r (r.addPhaseRecord p) where
  phases _ := List.map_append
  branches _ := (List.append_nil _).symm
  subtests := (List.append_nil _).symm
  diagnoses := (List.append_nil _).symm

/-- The record of the running phase is lost. -/
theorem phaseLost {p : PhaseRecord} (h : Adds l r (r₁.addPhaseRecord p)) :
    Adds (l ++ [.phaseLost]) r r₁ where
  phases hl := absurd (List.mem_append_right _ (List.mem_singleton_self _)) hl
  branches hl := (h.branches (List.forall_mem_append.mp hl).1).trans (by simp [Step.branchEvent])
  subtests := h.subtests.trans (by simp [Step.subtestEvent])
  diagnoses := h.diagnoses.trans (by simp [Step.diagnosisEvent])

theorem silent {x : Step} (hx : x.isSilent = true) (r : TestRecord) : Adds [x] r r := by
  simp only [Step.isSilent, Bool.and_eq_true, Option.isNone_iff_eq_none] at hx
  obtain ⟨⟨⟨hphase, hbranch⟩, hsubtest⟩, hdiagnosis⟩ := hx
  refine ⟨fun _ ↦ ?_, fun _ ↦ ?_, ?_, ?_⟩
  · simp [hphase]
  · simp [hbranch]
  · simp [hsubtest]
  · simp [hdiagnosis]

theorem diagnosis (d : Diagnosis) (r : TestRecord) :
    Adds [.diagnosisAccepted d] r (if d.isInternal then r else r.addDiagnosis d) := by
  cases hd : d.isInternal with
  | true =>
      refine ⟨fun _ ↦ ?_, fun _ ↦ ?_, ?_, ?_⟩ <;> simp [Step.phaseEvent, Step.branchEvent,
        Step.subtestEvent, Step.diagnosisEvent, hd]
  | false =>
      refine ⟨fun _ ↦ ?_, fun _ ↦ ?_, ?_, ?_⟩ <;> simp [Step.phaseEvent, Step.branchEvent,
        Step.subtestEvent, Step.diagnosisEvent, hd, TestRecord.addDiagnosis]

end Adds

/-- The steps from `s` to `s'` satisfy `P`, and the record has grown by their
events. -/
def Told (P : Step → Prop) (s s' : RunState) : Prop :=
  ∃ l, s'.steps = s.steps ++ l ∧ (∀ x ∈ l, P x) ∧ Adds l s.testRecord s'.testRecord

instance {P : Step → Prop} : Std.Refl (Told P) where
  refl s := ⟨[], by simp, nofun, .refl _⟩

instance {P : Step → Prop} : IsTrans RunState (Told P) where
  trans := by
    rintro s s₁ s₂ ⟨l, hl, hp, h⟩ ⟨l', hl', hp', h'⟩
    refine ⟨l ++ l', by rw [hl', hl, List.append_assoc], fun x hx ↦ ?_, h.append h'⟩
    rcases List.mem_append.mp hx with hx | hx
    · exact hp x hx
    · exact hp' x hx

namespace Told

variable {P Q : Step → Prop} {s s' : RunState}

theorem trans {s'' : RunState} (h : Told P s s') (h' : Told P s' s'') : Told P s s'' :=
  IsTrans.trans _ _ _ h h'

theorem mono (h : Told P s s') (hpq : ∀ x, P x → Q x) : Told Q s s' := by
  obtain ⟨l, hl, hp, hadds⟩ := h
  exact ⟨l, hl, fun x hx ↦ hpq x (hp x hx), hadds⟩

theorem of_eq (hsteps : s'.steps = s.steps) (hrecord : Adds [] s.testRecord s'.testRecord) :
    Told P s s' :=
  ⟨[], by simp [hsteps], nofun, hrecord⟩

theorem step {x : Step} (hx : x.isSilent = true) (hp : P x) : Told P s (s.addStep x) :=
  ⟨[x], rfl, by simpa using hp, .silent hx _⟩

end Told

/-! ## Phases -/

/-- The steps that the phase executor notes. -/
def Step.offBranch (x : Step) : Prop := x.branchEvent = none

/-- The run with the record of the running phase added. -/
def RunState.recorded (s : RunState) : RunState :=
  s.mapTestRecord (·.addPhaseRecord s.phaseState.phaseRecord)

/-- The same inside a phase: what the record would be if the phase ended here. -/
def ToldInPhase (s s' : RunState) : Prop := Told Step.offBranch s.recorded s'.recorded

instance : Std.Refl ToldInPhase where
  refl s := Std.Refl.refl (r := Told Step.offBranch) s.recorded

instance : IsTrans RunState ToldInPhase where
  trans s s₁ s₂ h h' :=
    IsTrans.trans (r := Told Step.offBranch) s.recorded s₁.recorded s₂.recorded h h'

theorem toldInPhase_mapPhaseState {f : PhaseState → PhaseState} (hf : PhaseState.SamePhase f)
    (s : RunState) : ToldInPhase s (s.mapPhaseState f) := by
  refine Told.of_eq rfl ⟨fun _ ↦ ?_, fun _ ↦ ?_, ?_, ?_⟩
  · obtain ⟨hid, hstart⟩ := hf s.phaseState
    have hevent : (f s.phaseState).phaseRecord.asBaseTypes.event =
        s.phaseState.phaseRecord.asBaseTypes.event := congrArg₂ Prod.mk hid hstart
    simpa [RunState.recorded, RunState.mapTestRecord, RunState.mapTestState, RunState.testRecord,
      RunState.mapPhaseState, TestRecord.addPhaseRecord] using hevent
  all_goals exact (List.append_nil _).symm

theorem toldInPhase_noteStep {x : Step} (hx : x.isSilent = true) (hp : x.offBranch) :
    Within ToldInPhase (noteStep x) :=
  .modify fun s ↦ Told.step (s := s.recorded) hx hp

/-- An accepted diagnosis is recorded unless it is internal. -/
theorem toldInPhase_acceptPhaseDiagnosis (d : Diagnosis) :
    Within ToldInPhase (acceptPhaseDiagnosis d) := by
  intro s
  have hphase : ToldInPhase s (s.mapPhaseState (·.addDiagnosis d)) := by
    refine toldInPhase_mapPhaseState (fun p ↦ ?_) _
    unfold PhaseState.addDiagnosis
    split <;> exact ⟨rfl, rfl⟩
  refine IsTrans.trans (r := ToldInPhase) _ _ _ hphase
    ⟨[.diagnosisAccepted d], ?_, by simp [Step.offBranch, Step.branchEvent], ?_⟩
  · cases hd : d.isInternal <;> simp [acceptPhaseDiagnosis, hd] <;> rfl
  · have hadds := Adds.diagnosis d (s.mapPhaseState (·.addDiagnosis d)).recorded.testRecord
    cases hd : d.isInternal with
    | true =>
        simp only [hd, if_true] at hadds
        simp only [acceptPhaseDiagnosis, hd]
        exact hadds
    | false =>
        simp only [hd, Bool.false_eq_true, if_false] at hadds
        simp only [acceptPhaseDiagnosis, hd]
        exact hadds

/-- Everything at the end of a phase keeps to the events of its record. -/
theorem endKept_toldInPhase : EndKept ToldInPhase where
  callUser _ _ := Told.of_eq rfl (.refl _)
  raised _ := toldInPhase_noteStep rfl rfl
  phaseState _ hf _ := .modify (toldInPhase_mapPhaseState hf)
  setRaised _ := .modify (toldInPhase_mapPhaseState fun _ ↦ ⟨rfl, rfl⟩)
  prediagnosis conf := .modify
    (toldInPhase_mapPhaseState (PhaseState.samePhase_setPrediagnosisPhaseOutcome conf))
  accept := toldInPhase_acceptPhaseDiagnosis

theorem Told.inPhase {s s₁ s₂ : RunState} (h : Told Step.offBranch s s₁.recorded)
    (h' : ToldInPhase s₁ s₂) : Told Step.offBranch s s₂.recorded := h.trans h'

variable {env : Env}

theorem told_shared {α : Type} {P : Step → Prop} (op : Sync → α × Sync) :
    Within (Told P) (shared env op) := fun _ ↦ .of_eq rfl (.refl _)

theorem told_callUser {α : Type} {P : Step → Prop} (f : ℕ → α) : Within (Told P) (callUser f) :=
  fun _ ↦ .of_eq rfl (.refl _)

theorem wp_enterPhase (p : PhaseDescriptor) (s : RunState) :
    wp (enterPhase env p) (fun _ s' ↦ Told Step.offBranch s s'.recorded)
      (fun _ s' ↦ Told Step.offBranch s s') s := by
  simp only [enterPhase, timeMillis, noteStep, wp_bind, wp_shared, wp_ite, wp_raise, wp_callUser, wp_modify]
  split
  · exact .of_eq rfl (.refl _)
  · let r : PhaseRecord := { descriptorId := p.id, name := p.name, startTimeMillis := s.moment }
    exact ⟨[.phaseEntered p.id s.moment], rfl, by simp [Step.offBranch, Step.branchEvent],
      .phase r s.testRecord⟩

theorem wp_leavePhase {s₀ s : RunState} (h : Told Step.offBranch s₀ s.recorded) :
    wp (leavePhase env) (fun _ s' ↦ Told Step.offBranch s₀ s') (fun _ s' ↦ Told Step.offBranch s₀ s') s := by
  have hend := (endKept_toldInPhase.finalizePhase env).wp s
  simp only [leavePhase, noteStep, wp_bind, wp_catching, wp_modify, wp_raise, wp_shared]
  refine hend.mono ?_ ?_
  · intro _ s' hs'
    exact h.trans hs'
  · intro _ s' hs'
    obtain ⟨l, hl, hp, hadds⟩ := h.trans hs'
    refine ⟨l ++ [.phaseLost], ?_, ?_, hadds.phaseLost⟩
    · rw [← List.append_assoc, ← hl]
      rfl
    · exact List.forall_mem_append.mpr ⟨hp, by simp [Step.offBranch, Step.branchEvent]⟩

theorem plainKept_toldInPhase : PlainKept env ToldInPhase where
  shared _ _ := Told.of_eq rfl (.refl _)
  noteThread _ _ := Told.of_eq rfl (.refl _)
  callUser _ _ := Told.of_eq rfl (.refl _)
  noteStep x hx := toldInPhase_noteStep (by cases x <;> first | rfl | cases hx)
    (by cases x <;> first | rfl | cases hx)

/-- Waiting for the thread of a phase does not raise. -/
theorem wp_joinOrDie (p : PhaseDescriptor) (thread : PhaseThread) (rec : Option SubtestRecord)
    (s : RunState) :
    wp (joinOrDie env p thread rec) (fun _ ↦ ToldInPhase s) (fun _ _ ↦ False) s := by
  have hkept : Within ToldInPhase (joinOrDie env p thread rec) :=
    plainKept_toldInPhase.joinOrDie (fun _ hf ↦ .modify (toldInPhase_mapPhaseState hf)) p thread rec
  have hreturns : wp (joinOrDie env p thread rec) (fun _ _ ↦ True) (fun _ _ ↦ False) s := by
    simp only [joinOrDie, wp_bind, wp_callUser, wp_gets, wp_modify, wp_shared]
    split <;> trivial
  exact ((hkept.wp s).and hreturns).mono (fun _ _ h ↦ h.1) fun _ _ h ↦ h.2

theorem told_runPhaseOnce (p : PhaseDescriptor) (last : Bool) (rec : Option SubtestRecord) :
    Within (Told Step.offBranch) (runPhaseOnce env p last rec) := by
  intro s
  refine (wp_same (P := Told Step.offBranch s)).mp ?_
  simp only [runPhaseOnce, wp_bind, wp_modify, wp_shared, wp_ite, wp_pure]
  refine (wp_enterPhase p s).mono (fun _ s₁ h₁ ↦ ?_) fun _ _ h ↦ h
  split
  · refine (wp_leavePhase (h₁.inPhase ?_)).mono (fun _ _ h ↦ h) fun _ _ h ↦ h
    exact toldInPhase_mapPhaseState
      (f := fun p ↦ (p.setSubtestName (rec.bind (·.name))).setResult .terminated) (fun _ ↦ ⟨rfl, rfl⟩) s₁
  · have hstarted : ToldInPhase s₁ (s₁.mapPhaseState (·.setSubtestName (rec.bind (·.name)))) :=
      toldInPhase_mapPhaseState (f := (·.setSubtestName (rec.bind (·.name)))) (fun _ ↦ ⟨rfl, rfl⟩) s₁
    refine (wp_joinOrDie p _ rec _).mono (fun o s₂ h₂ ↦ ?_) fun _ _ ↦ False.elim
    refine (wp_leavePhase ((h₁.inPhase (hstarted.trans h₂)).inPhase ?_)).mono (fun _ s₃ h₃ ↦ ?_) fun _ _ h ↦ h
    · exact toldInPhase_mapPhaseState (f := fun p ↦ { p.setResult o with hitRepeatLimit := o.isRepeat && last })
        (fun _ ↦ ⟨rfl, rfl⟩) s₂
    · split
      · exact h₃
      · simp only [wp_gets]
        split <;> exact h₃

theorem told_skipPhase (p : PhaseDescriptor) (rec : Option SubtestRecord) :
    Within (Told Step.offBranch) (skipPhase env p rec) := by
  intro s
  refine (wp_same (P := Told Step.offBranch s)).mp ?_
  simp only [skipPhase, wp_bind, wp_modify]
  refine (wp_enterPhase p s).mono (fun _ s₁ h₁ ↦ wp_leavePhase (h₁.inPhase ?_)) fun _ _ h ↦ h
  refine toldInPhase_mapPhaseState ?_ s₁
  exact fun _ ↦ ⟨rfl, rfl⟩

theorem told_noteStep {P : Step → Prop} {x : Step} (hx : x.isSilent = true) (hp : P x) :
    Within (Told P) (noteStep x) := .modify fun _ ↦ .step hx hp

theorem execKept_told : ExecKept env (Told Step.offBranch) where
  shared := told_shared
  noteThread _ _ := .of_eq rfl (.refl _)
  callUser := told_callUser
  noteStep x hx := told_noteStep (by cases x <;> first | rfl | cases hx) (by cases x <;> first | rfl | cases hx)
  runPhaseOnce := told_runPhaseOnce
  -- A change of the outcome of the last phase record is none of its dict.
  lastRepeatFailed := within_lastRepeatFailed (fun _ ↦ told_noteStep rfl rfl) fun s _ _ _ ↦ by
    have hnoted : Told Step.offBranch s (s.addStep .lastPhaseRecordChanged) := .step rfl rfl
    exact hnoted.trans (.of_eq rfl (.of_eq rfl rfl rfl rfl))
  skipPhase := told_skipPhase
  evaluateCheckpoint := within_evaluateCheckpoint told_callUser (fun _ _ ↦ told_noteStep rfl rfl)
    fun _ ↦ .modify fun _ ↦ .of_eq rfl (.of_eq rfl rfl rfl rfl)
  skipCheckpoint := within_skipCheckpoint told_callUser (fun _ _ ↦ told_noteStep rfl rfl)
    fun _ ↦ .modify fun _ ↦ .of_eq rfl (.of_eq rfl rfl rfl rfl)

/-! ## Trees -/

namespace Adds

variable {l : List Step} {r r₁ : TestRecord} {inBranch : Bool}

/-- A branch whose body added `l`. -/
theorem branch (h : Adds l r r₁) (hl : ∀ x ∈ l, x.branchEvent.isSome = true → x.losesBranch = true)
    (b : BranchRecord) :
    Adds (.branchEvaluated b.name b.evaluatedMillis inBranch :: l) r (r₁.addBranchRecord b) where
  phases hlost := h.phases fun hm ↦ hlost (List.mem_cons_of_mem _ hm)
  branches hlose := by
    have hlose := (List.forall_mem_cons.mp hlose).2
    have hnone : l.filterMap Step.branchEvent = [] := by
      refine List.filterMap_eq_nil_iff.mpr fun x hx ↦ ?_
      by_contra hsome
      have hx' := hl x hx (Option.isSome_iff_ne_none.mpr hsome)
      rw [hlose x hx] at hx'
      cases hx'
    have hbody := h.branches hlose
    rw [hnone, List.append_nil] at hbody
    have hrecord : (r₁.addBranchRecord b).cachedBranches.map (·.event) =
        r₁.cachedBranches.map (·.event) ++ [b.asBaseTypes.event] := List.map_append
    rw [hrecord, hbody, List.filterMap_cons, hnone]
    rfl
  subtests := h.subtests
  diagnoses := h.diagnoses

/-- A branch whose body raised. -/
theorem branchLost (h : Adds l r r₁) (name : Option String) (millis : ℕ) :
    Adds (.branchEvaluated name millis inBranch :: (l ++ [.branchLost])) r r₁ where
  phases hlost := by
    have hbody := h.phases fun hm ↦ hlost (List.mem_cons_of_mem _ (List.mem_append_left _ hm))
    simpa [List.filterMap_cons, Step.phaseEvent] using hbody
  branches hlose := absurd (hlose .branchLost (by simp)) (by simp [Step.losesBranch])
  subtests := by simpa [List.filterMap_cons, Step.subtestEvent] using h.subtests
  diagnoses := by simpa [List.filterMap_cons, Step.diagnosisEvent] using h.diagnoses

theorem subtest (s : SubtestRecord) (r : TestRecord) :
    Adds [.subtestCompleted s.name s.startTimeMillis] r (r.addSubtestRecord s) where
  phases _ := (List.append_nil _).symm
  branches _ := (List.append_nil _).symm
  subtests := List.map_append
  diagnoses := (List.append_nil _).symm

end Adds

/-- A branch that is evaluated inside another one is recorded before that. -/
def World.Nested (w : World) (x : Step) : Prop :=
  w.inBranch = true → x.branchEvent.isSome = true → x.losesBranch = true

/-- What the test executor adds where it stands in the tree. -/
structure TreeTold (w w' : World) : Prop where
  callstack : w'.callstack = w.callstack
  run : Told w.Nested w.run w'.run

theorem World.nested_of_inBranch_eq {w w' : World} (h : w'.inBranch = w.inBranch) :
    w'.Nested = w.Nested := by
  funext x
  rw [Nested, h, Nested]

theorem World.inBranch_of_callstack_eq {w w' : World} (h : w'.callstack = w.callstack) :
    w'.inBranch = w.inBranch := by
  rw [inBranch, h, inBranch]

instance : Std.Refl TreeTold where
  refl _ := ⟨rfl, Std.Refl.refl _⟩

instance : IsTrans World TreeTold where
  trans := by
    intro _ _ _ h h'
    refine ⟨h'.callstack.trans h.callstack, h.run.trans ?_⟩
    have hrun := h'.run
    rwa [World.nested_of_inBranch_eq (World.inBranch_of_callstack_eq h.callstack)] at hrun

theorem treeTold_lift {w : World} {s : RunState} (h : Told Step.offBranch w.run s) :
    TreeTold w (w.setRun s) := by
  refine ⟨rfl, h.mono fun x hx _ hsome ↦ ?_⟩
  rw [Step.offBranch] at hx
  rw [hx] at hsome
  cases hsome

theorem treeTold_within {f : Frame} {x : Executor ExecutorReturn} (hf : f.isBranch = false)
    (hx : Within TreeTold x) : Within TreeTold (within f x) := by
  intro w
  have h := hx (w.setCallstack (f :: w.callstack))
  refine ⟨rfl, ?_⟩
  have hrun := h.run
  have hin : (w.setCallstack (f :: w.callstack)).inBranch = w.inBranch := by
    simp [World.inBranch, hf]
  rwa [World.nested_of_inBranch_eq hin] at hrun

theorem treeTold_branch {s : PhaseSequence} {c : DiagnosisCondition} {rec : Option ℕ} {td : Bool}
    {x : Executor ExecutorReturn} (hx : Within TreeTold x) :
    Within TreeTold (executePhaseBranch s c rec td x) := by
  intro w
  refine (wp_same (P := TreeTold w)).mp ?_
  simp only [wp_executePhaseBranch]
  split
  · exact Std.Refl.refl w
  have hself : w.Nested (.branchEvaluated s.name w.run.moment w.inBranch) := fun h _ ↦ h
  split
  · -- The body is inside a branch, so whatever branches it evaluates are nested in this one.
    refine (hx.wp _).mono ?_ ?_
    · rintro ret w' ⟨hstack, l, hl, hp, hadds⟩
      refine ⟨rfl, .branchEvaluated s.name w.run.moment w.inBranch :: l, ?_, ?_, ?_⟩
      · exact hl.trans (List.append_assoc ..)
      · exact List.forall_mem_cons.mpr ⟨hself, fun x hx _ ↦ hp x hx rfl⟩
      · exact hadds.branch (fun x hx ↦ hp x hx rfl) ⟨s.name, c, true, w.run.moment⟩
    · rintro e w' ⟨hstack, l, hl, hp, hadds⟩
      refine ⟨rfl, .branchEvaluated s.name w.run.moment w.inBranch :: (l ++ [.branchLost]), ?_, ?_, ?_⟩
      · have hsteps := congrArg (· ++ [Step.branchLost]) (hl.trans (List.append_assoc ..))
        exact hsteps.trans (List.append_assoc ..)
      · refine List.forall_mem_cons.mpr ⟨hself, List.forall_mem_append.mpr ⟨fun x hx _ ↦ hp x hx rfl, ?_⟩⟩
        simp [World.Nested, Step.branchEvent]
      · exact hadds.branchLost s.name w.run.moment
  · refine ⟨rfl, [.branchEvaluated s.name w.run.moment w.inBranch], rfl, ?_, ?_⟩
    · simpa using hself
    · exact (Adds.refl w.run.testRecord).branch nofun ⟨s.name, c, false, w.run.moment⟩

theorem treeTold_leaveSubtest (i : ℕ) (outerFailed : Bool) (ret : ExecutorReturn) :
    Within TreeTold (leaveSubtest i outerFailed ret) := by
  intro w
  rw [leaveSubtest_apply]
  refine ⟨rfl, [.subtestCompleted (w.subtestRecords i).name (w.subtestRecords i).startTimeMillis], rfl, ?_, ?_⟩
  · simp [World.Nested, Step.branchEvent]
  · exact Adds.subtest (w.closedRecord i ret) w.run.testRecord

theorem treeKept_told : TreeKept env (Told Step.offBranch) TreeTold where
  exec := execKept_told
  lift := treeTold_lift
  world hrun hstack _ := ⟨hstack, hrun ▸ Std.Refl.refl _⟩
  within := treeTold_within
  branch := treeTold_branch
  leaveSubtest := treeTold_leaveSubtest

/-! ## The thread -/

theorem TestState.adds_of_lasting {t t' : TestState} (h : t'.lasting = t.lasting) :
    Adds [] t.testRecord t'.testRecord := by
  have hphases := congrArg (·.testRecord.cachedPhases) h
  have hbranches := congrArg (·.testRecord.cachedBranches) h
  have hsubtests := congrArg (·.testRecord.cachedSubtests) h
  have hdiagnoses := congrArg (·.testRecord.cachedDiagnoses) h
  exact .of_eq hphases hbranches hsubtests hdiagnoses

/-- A test diagnosis is never internal. -/
theorem told_acceptTestDiagnosis (d : Diagnosis) :
    Within (Told Step.offBranch) (acceptTestDiagnosis d) := by
  intro s
  cases hd : d.isInternal with
  | true =>
      simp only [acceptTestDiagnosis, hd, if_true]
      exact Std.Refl.refl s
  | false =>
      have hadds := Adds.diagnosis d s.testRecord
      simp only [hd, Bool.false_eq_true, if_false] at hadds
      simp only [acceptTestDiagnosis, hd]
      exact ⟨[.diagnosisAccepted d], rfl, by simp [Step.offBranch, Step.branchEvent], hadds⟩

theorem threadKept_told : ThreadKept env (Told Step.offBranch) TreeTold := by
  have hnote (p : PlugInstance) : Within (Told Step.offBranch) (noteStep (.plugTornDown p)) :=
    told_noteStep rfl rfl
  have hmap (f : PlugManager → PlugManager) : Within (Told Step.offBranch) (mapPlugManager f) :=
    .modify fun _ ↦ .of_eq rfl (.refl _)
  exact {
    toTreeKept := treeKept_told
    finalisation := fun x hx ↦ told_noteStep (by cases x <;> first | rfl | cases hx)
      (by cases x <;> first | rfl | cases hx)
    testState := fun _ hf ↦ .modify fun _ ↦ .of_eq rfl (TestState.adds_of_lasting (hf _))
    initializePlugTypes := within_initializePlugTypes hnote hmap told_callUser (fun _ ↦ told_noteStep rfl rfl)
      fun _ _ ↦ told_noteStep rfl rfl
    tearDownPlugs := within_tearDownPlugs hnote hmap
    acceptTestDiagnosis := told_acceptTestDiagnosis }

theorem told_final (env : Env) (test : Test) (abortCalls : ℕ) :
    Adds (World.final env test abortCalls).run.steps {} (World.final env test abortCalls).run.testRecord := by
  have hkept : ThreadKept env (Told Step.offBranch) TreeTold := threadKept_told
  rcases hkept.final test abortCalls with h | h
  · rw [h]
    exact .refl _
  · obtain ⟨l, hl, -, hadds⟩ := h.run
    obtain rfl : (World.final env test abortCalls).run.steps = l := hl
    exact hadds

/-- A branch that is not taken and a subtest of one phase that follows it. -/
def branchAndSubtestTest : Test where
  phaseSequence := .mk .plain none [
    .sequence (.mk (.branch ⟨.ANY, []⟩) (some "retry") []),
    .sequence (.mk .subtest (some "power") [.phase { id := 0, name := "measure" }])]

/-- A test of one phase and a checkpoint after it. -/
def checkpointTest : Test where
  phaseSequence := .mk .plain none [.phase { id := 0, name := "measure" },
    .checkpoint { name := "gate", conditional := .inl .LAST }]

end OpenHtf
