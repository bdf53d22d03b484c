import OpenHtf.PhaseExecutor

/-!
# What the execution of a phase keeps

A relation between the states before and after is kept by the execution of a
phase as soon as the statements that it is made of keep it.  The statements are
named by the fields of three structures: those of the end of a phase, those of
one run of a phase, and those of its rounds.
-/

set_option autoImplicit false

namespace OpenHtf

open Act

/-- Steps that are about neither records nor plugs nor the end of the test. -/
def Step.isPlain : Step → Bool
  | raised _ | testDiagnoserRaised _ | lastPhaseRecord _ | unhandledNode | threadDied _ => true
  | _ => false

/-- A change of the phase state that keeps the phase and its start. -/
def PhaseState.SamePhase (f : PhaseState → PhaseState) : Prop :=
  ∀ p, (f p).phaseRecord.descriptorId = p.phaseRecord.descriptorId ∧
    (f p).phaseRecord.startTimeMillis = p.phaseRecord.startTimeMillis

theorem PhaseState.samePhase_setPrediagnosisPhaseOutcome (conf : Conf) :
    SamePhase (·.setPrediagnosisPhaseOutcome conf) := by
  intro p
  simp only [setPrediagnosisPhaseOutcome]
  split
  · exact ⟨rfl, rfl⟩
  · split_ifs <;> exact ⟨rfl, rfl⟩

theorem PhaseState.samePhase_setPostdiagnosisPhaseOutcome :
    SamePhase (·.setPostdiagnosisPhaseOutcome) := by
  intro p
  simp only [setPostdiagnosisPhaseOutcome]
  split_ifs <;> exact ⟨rfl, rfl⟩

theorem PhaseState.result_setPostdiagnosisPhaseOutcome (p : PhaseState) :
    p.setPostdiagnosisPhaseOutcome.phaseRecord.result = p.phaseRecord.result := by
  unfold setPostdiagnosisPhaseOutcome
  split_ifs <;> rfl

section Rules

variable {R : RunState → RunState → Prop}

theorem within_exceptException {α : Type} {x : Exec α} {handler : PyExc → Exec α} [Std.Refl R]
    [IsTrans RunState R] (hx : Within R x) (hh : ∀ e, Within R (handler e)) :
    Within R (exceptException x handler) :=
  .catching hx fun e ↦ .ite (fun _ ↦ hh e) fun _ ↦ .raise

/-! ## Diagnosers

A diagnoser does nothing but call user code, and what consumes its diagnoses
does. -/

theorem within_verifyAndFixDiagnosis [Std.Refl R] (diagnoser : Diagnoser) (d : Diagnosis) :
    Within R (verifyAndFixDiagnosis diagnoser d) := by
  refine .ite (fun _ ↦ .raise) fun _ ↦ .ite (fun _ ↦ ?_) fun _ ↦ .pure
  cases d.evolveIsFailure with
  | ok d => exact .pure
  | error e => exact .raise

variable [Std.Refl R] [IsTrans RunState R] {accept : Diagnosis → Exec Unit}

theorem within_convertItems (hraised : ∀ e, Within R (noteStep (.raised e)))
    (haccept : ∀ d, Within R (accept d)) (diagnoser : Diagnoser) (items : List DiagItem) :
    Within R (convertItems diagnoser accept items) := by
  induction items with
  | nil => exact .pure
  | cons item rest ih =>
      cases item with
      | diagnosis d =>
          exact .bind (within_verifyAndFixDiagnosis _ _) fun d ↦ .bind (haccept d) fun _ ↦ ih
      | other typeName => exact .raise
      | raises e => exact .bind (hraised e) fun _ ↦ .raise

theorem within_runDiagnoser (hcall : ∀ f : ℕ → DiagnoserReturn, Within R (callUser f))
    (hraised : ∀ e, Within R (noteStep (.raised e))) (haccept : ∀ d, Within R (accept d))
    (diagnoser : Diagnoser) : Within R (runDiagnoser diagnoser accept) := by
  refine .bind (hcall _) fun r ↦ ?_
  cases r with
  | raised e => exact .bind (hraised e) fun _ ↦ .raise
  | nothing => exact .pure
  | single d => exact .bind (within_verifyAndFixDiagnosis _ _) fun d ↦ haccept d
  | invalid => exact .raise
  | iterable items => exact within_convertItems hraised haccept diagnoser items

end Rules

/-! ## The end of a phase -/

/-- Calls of user code, and the note that one raised, keep `R`. -/
structure CallsKept (R : RunState → RunState → Prop) : Prop where
  callUser : ∀ {α : Type} (f : ℕ → α), Within R (callUser f)
  raised : ∀ e, Within R (noteStep (.raised e))

namespace CallsKept

variable {R : RunState → RunState → Prop} [Std.Refl R] [IsTrans RunState R] (h : CallsKept R)

include h

theorem callRaising {α : Type} {f : ℕ → Except PyExc α} : Within R (callRaising f) := by
  refine .bind (h.callUser f) fun r ↦ ?_
  cases r with
  | ok a => exact .pure
  | error e => exact .bind (h.raised e) fun _ ↦ .raise

theorem allValid (vs : List Validator) : Within R (allValid vs) := by
  induction vs with
  | nil => exact .pure
  | cons v vs ih => exact .bind h.callRaising fun _ ↦ .ite (fun _ ↦ ih) fun _ ↦ .pure

theorem anyMarginal (vs : List Validator) : Within R (anyMarginal vs) := by
  induction vs with
  | nil => exact .pure
  | cons v vs ih =>
      unfold OpenHtf.anyMarginal
      cases v.isMarginal with
      | none => exact ih
      | some f => exact .bind h.callRaising fun _ ↦ .ite (fun _ ↦ .pure) fun _ ↦ ih

theorem validate (m : Measurement) : Within R m.validate :=
  within_exceptException
    (.bind (h.allValid _) fun _ ↦
      .ite (fun _ ↦ .bind (h.anyMarginal _) fun _ ↦ .ite (fun _ ↦ .pure) fun _ ↦ .pure)
        fun _ ↦ .pure)
    fun _ ↦ .pure

end CallsKept

/-- The statements of the end of a phase keep `R`. -/
structure EndKept (R : RunState → RunState → Prop) : Prop extends CallsKept R where
  phaseState : ∀ f, PhaseState.SamePhase f →
    (∀ p, (f p).phaseRecord.result = p.phaseRecord.result) →
    Within R (Act.modify (RunState.mapPhaseState f) : Exec Unit)
  setRaised : ∀ e, Within R (Act.modify (RunState.mapPhaseState (·.setResult (.raised e))) : Exec Unit)
  prediagnosis : ∀ conf,
    Within R (Act.modify (RunState.mapPhaseState (·.setPrediagnosisPhaseOutcome conf)) : Exec Unit)
  accept : ∀ d, Within R (acceptPhaseDiagnosis d)

namespace EndKept

variable {R : RunState → RunState → Prop} [Std.Refl R] [IsTrans RunState R] (h : EndKept R)

include h

theorem recordException (e : PyExc) : Within R (recordException e) := by
  refine .bind .gets fun r ↦ ?_
  cases r with
  | none => exact .raise
  | some r => exact .ite (fun _ ↦ .pure) fun _ ↦ h.setRaised e

theorem finalizeMeasurement (skipped : Bool) (m : Measurement) :
    Within R (finalizeMeasurement skipped m) := by
  refine .ite (fun _ ↦ .bind (h.validate _) fun r ↦ ?_) fun _ ↦ .pure
  obtain ⟨m, e⟩ := r
  cases e with
  | none => exact .pure
  | some e => exact .bind (h.recordException e) fun _ ↦ .pure

theorem finalizeMeasurements : Within R finalizeMeasurements := by
  have hlist (skipped : Bool) (ms : List Measurement) : Within R (finalizeMeasurementList skipped ms) := by
    induction ms with
    | nil => exact .pure
    | cons m ms ih =>
        exact .bind (h.finalizeMeasurement skipped m) fun _ ↦ .bind ih fun _ ↦ .pure
  refine .bind .gets fun _ ↦ .bind .gets fun _ ↦ .bind (hlist _ _) fun _ ↦ h.phaseState _ ?_ ?_
  · exact fun _ ↦ ⟨rfl, rfl⟩
  · exact fun _ ↦ rfl

theorem executePhaseDiagnosers : Within R executePhaseDiagnosers := by
  have hlist (ds : List Diagnoser) : Within R (executePhaseDiagnoserList ds) := by
    induction ds with
    | nil => exact .pure
    | cons d ds ih =>
        exact .bind (within_exceptException (within_runDiagnoser h.callUser h.raised h.accept d)
          h.recordException) fun _ ↦ ih
  refine .bind .gets fun r ↦ ?_
  cases r with
  | none => exact .pure
  | some r => exact .ite (fun _ ↦ .pure) fun _ ↦ .bind .gets hlist

theorem finalizePhase (env : Env) : Within R (finalizePhase env) := by
  refine .bind h.finalizeMeasurements fun _ ↦ .bind (h.prediagnosis _) fun _ ↦
    .bind h.executePhaseDiagnosers fun _ ↦ .bind (h.phaseState _ ?_ ?_) fun _ ↦
    .bind (h.callUser _) fun _ ↦ h.phaseState _ ?_ ?_
  · exact PhaseState.samePhase_setPostdiagnosisPhaseOutcome
  · exact PhaseState.result_setPostdiagnosisPhaseOutcome
  · exact fun _ ↦ ⟨rfl, rfl⟩
  · exact fun _ ↦ rfl

end EndKept

/-! ## Phases -/

/-- The outcome of the last phase record is changed to SKIP. -/
def RunState.skipLast (last : PhaseRecord) (s : RunState) : RunState :=
  (s.addStep .lastPhaseRecordChanged).mapTestRecord fun r ↦
    { r with phases := r.phases.dropLast ++ [{ last with outcome := some .SKIP }] }

/-- `_should_repeat` changes the last phase record when that says FAIL. -/
theorem within_lastRepeatFailed {R : RunState → RunState → Prop} [IsTrans RunState R]
    (hnote : ∀ b, Within R (noteStep (.lastPhaseRecord b)))
    (hskip : ∀ s last, s.testRecord.phases.getLast? = some last → last.outcome = some .FAIL →
      R s (s.skipLast last)) (isLastRepeat : Bool) : Within R (lastRepeatFailed isLastRepeat) := by
  intro s
  refine (wp_same (P := R s)).mp ?_
  have hnoted (b : Bool) : R s (s.addStep (.lastPhaseRecord b)) := hnote b s
  simp only [lastRepeatFailed, noteStep, wp_bind, wp_gets, wp_modify]
  cases hl : s.testRecord.phases.getLast? with
  | none => exact hnoted _
  | some last =>
      simp only [wp_ite, wp_bind, wp_modify]
      split
      · rename_i hf
        simp only [Bool.and_eq_true, beq_iff_eq] at hf
        exact IsTrans.trans _ _ _ (hnoted _) (hskip _ last hl hf.1)
      · exact hnoted _

/-- Statements that write no record keep `R`. -/
structure PlainKept (env : Env) (R : RunState → RunState → Prop) : Prop where
  shared : ∀ {α : Type} (op : Sync → α × Sync), Within R (shared env op)
  noteThread : ∀ f, Within R (noteThread f)
  callUser : ∀ {α : Type} (f : ℕ → α), Within R (callUser f)
  noteStep : ∀ x : Step, x.isPlain = true → Within R (noteStep x)

/-- The statements of the rounds of a phase keep `R`. -/
structure RoundsKept (env : Env) (R : RunState → RunState → Prop) : Prop extends PlainKept env R where
  runPhaseOnce : ∀ p last rec, Within R (runPhaseOnce env p last rec)
  lastRepeatFailed : ∀ last, Within R (lastRepeatFailed last)

/-- The statements of the run of a phase keep `R`. -/
structure PhaseKept (env : Env) (R : RunState → RunState → Prop) : Prop extends PlainKept env R where
  phaseState : ∀ f, PhaseState.SamePhase f →
    Within R (Act.modify (RunState.mapPhaseState f) : Exec Unit)
  enterPhase : ∀ p, Within R (enterPhase env p)
  leavePhase : Within R (leavePhase env)
  lastRepeatFailed : ∀ last, Within R (lastRepeatFailed last)

section Phases

variable {env : Env} {R : RunState → RunState → Prop} [Std.Refl R] [IsTrans RunState R]

theorem PlainKept.joinOrDie (h : PlainKept env R)
    (hstate : ∀ f, PhaseState.SamePhase f →
      Within R (Act.modify (RunState.mapPhaseState f) : Exec Unit))
    (p : PhaseDescriptor) (thread : PhaseThread) (rec : Option SubtestRecord) :
    Within R (joinOrDie env p thread rec) := by
  refine .bind (h.callUser _) fun call ↦ .bind .gets fun provided ↦ .bind (hstate _ fun s ↦ ?_) fun _ ↦
    .bind (h.shared _) fun killed ↦ ?_
  · split <;> exact ⟨rfl, rfl⟩
  · split
    · exact .pure
    · exact .bind (h.noteStep _ rfl) fun _ ↦ .pure

namespace PhaseKept

variable (h : PhaseKept env R)

include h

theorem runPhaseOnce (p : PhaseDescriptor) (last : Bool) (rec : Option SubtestRecord) :
    Within R (runPhaseOnce env p last rec) := by
  have hjoin := h.joinOrDie h.phaseState p
  refine .bind (h.enterPhase p) fun _ ↦ .bind (h.phaseState _ fun _ ↦ ⟨rfl, rfl⟩) fun _ ↦
    .bind (h.shared _) fun _ ↦ .bind (h.shared _) fun _ ↦
    .ite (fun _ ↦ .bind (h.shared _) fun _ ↦ .bind (h.phaseState _ fun _ ↦ ⟨rfl, rfl⟩) fun _ ↦
      .bind h.leavePhase fun _ ↦ .pure)
    fun _ ↦ .bind (h.shared _) fun _ ↦ .bind (h.shared _) fun _ ↦ .bind (h.shared _) fun _ ↦
      .bind (hjoin _ rec) fun _ ↦ .bind (h.phaseState _ fun _ ↦ ⟨rfl, rfl⟩) fun _ ↦
      .bind (h.shared _) fun _ ↦ .bind h.leavePhase fun _ ↦ .ite (fun _ ↦ .pure) fun _ ↦
      .bind .gets fun r ↦ ?_
  cases r with
  | none => exact .raise
  | some r => exact .pure

omit [Std.Refl R] in
theorem skipPhase (p : PhaseDescriptor) (rec : Option SubtestRecord) :
    Within R (skipPhase env p rec) :=
  .bind (h.enterPhase p) fun _ ↦ .bind (h.phaseState _ fun _ ↦ ⟨rfl, rfl⟩) fun _ ↦ h.leavePhase

theorem rounds : RoundsKept env R where
  toPlainKept := h.toPlainKept
  runPhaseOnce := h.runPhaseOnce
  lastRepeatFailed := h.lastRepeatFailed

end PhaseKept

namespace RoundsKept

variable (h : RoundsKept env R)

include h

theorem executePhaseOnce (p : PhaseDescriptor) (last : Bool) (rec : Option SubtestRecord) :
    Within R (executePhaseOnce env p last rec) := by
  unfold OpenHtf.executePhaseOnce
  cases p.options.runIf with
  | none => exact h.runPhaseOnce p last rec
  | some runIf =>
      refine .bind (h.callUser _) fun r ↦ ?_
      match r with
      | .error e =>
          exact .bind (h.noteThread _) fun _ ↦ .bind (h.noteStep _ rfl) fun _ ↦
            .ite (fun _ ↦ .pure) fun _ ↦ .raise
      | .ok false => exact .bind (h.noteThread _) fun _ ↦ .pure
      | .ok true => exact h.runPhaseOnce p last rec

omit [IsTrans RunState R] in
theorem shouldRepeat (p : PhaseDescriptor) (o : PhaseExecutionOutcome) (last : Bool) :
    Within R (shouldRepeat p o last) :=
  .ite (fun _ ↦ .pure) fun _ ↦ .ite (fun _ ↦ .pure) fun _ ↦ .ite (fun _ ↦ .pure) fun _ ↦
    .ite (fun _ ↦ h.lastRepeatFailed last) fun _ ↦ .pure

theorem executePhaseLoop (p : PhaseDescriptor) (rec : Option SubtestRecord) (repeatsLeft : ℕ) :
    Within R (executePhaseLoop env p rec repeatsLeft) := by
  have hround (last : Bool) {next : Exec PhaseExecutionOutcome} (hn : Within R next) :
      Within R (executePhaseRound env p rec last next) :=
    .bind (h.shared _) fun _ ↦ .ite (fun _ ↦ .pure) fun _ ↦
      .bind (h.executePhaseOnce p last rec) fun o ↦ .bind (h.shouldRepeat p o last) fun _ ↦
      .ite (fun _ ↦ .bind (h.noteThread _) fun _ ↦ hn) fun _ ↦ .pure
  induction repeatsLeft with
  | zero => exact hround true .pure
  | succ repeatsLeft ih => exact hround false ih

theorem executePhase (p : PhaseDescriptor) (rec : Option SubtestRecord) :
    Within R (executePhase env p rec) :=
  h.executePhaseLoop p rec _

end RoundsKept

end Phases

/-! ## Checkpoints -/

section Checkpoints

variable {R : RunState → RunState → Prop} [IsTrans RunState R]
  (hcall : ∀ {α : Type} (f : ℕ → α), Within R (callUser f))
  (hmet : ∀ name millis, Within R (noteStep (.checkpointMet name millis)))
  (hadd : ∀ r, Within R (Act.modify (RunState.mapTestRecord (·.addCheckpointRecord r)) : Exec Unit))

include hcall hmet hadd

theorem within_evaluateCheckpoint [Std.Refl R] (c : Checkpoint) (rec : Option SubtestRecord) :
    Within R (evaluateCheckpoint c rec) := by
  have hresult : Within R (c.getResult rec) := by
    unfold Checkpoint.getResult
    refine .bind .gets fun s ↦ ?_
    cases c.conditional with
    | inl previous => exact .ite (fun _ ↦ .bind .raise fun _ ↦ .pure) fun _ ↦ .pure
    | inr condition => exact .pure
  exact .bind (hcall _) fun _ ↦ .bind (hmet _ _) fun _ ↦
    .bind (within_exceptException
      (.bind hresult fun r ↦ .ite (fun _ ↦ .bind .raise fun _ ↦ .pure) fun _ ↦ .pure)
      fun _ ↦ .pure) fun _ ↦
    .bind (hadd _) fun _ ↦ .pure

theorem within_skipCheckpoint (c : Checkpoint) (rec : Option SubtestRecord) :
    Within R (skipCheckpoint c rec) :=
  .bind (hcall _) fun _ ↦ .bind (hmet _ _) fun _ ↦ hadd _

end Checkpoints

end OpenHtf
