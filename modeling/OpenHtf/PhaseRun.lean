import OpenHtf.PhaseFrame
import OpenHtf.Protocol

/-!
# How a phase comes to its end

When no callable of the user raises anything but an `Exception`, nothing escapes
from the execution of a phase except the lookup of the last phase record.  The
execution keeps to the protocol with the aborting thread, and an outcome that is
a `ThreadTerminationError` has a cause.
-/

set_option autoImplicit false

namespace OpenHtf

open Act

/-- Some callable of the user raised what `except Exception` does not catch. -/
def RunState.Untamed (s : RunState) : Prop := ∃ e, .raised e ∈ s.steps ∧ e.isException = false

def RunState.HasResult (s : RunState) : Prop := s.result.isSome = true

/-- The exceptions that validators and diagnosers can raise. -/
def Noted (e : PyExc) (s : RunState) : Prop :=
  s.HasResult ∧ (e.isException = true ∨ .raised e ∈ s.steps)

theorem Untamed.mono {s s' : RunState} (h : s.Untamed) (hs : s.steps <+: s'.steps) : s'.Untamed := by
  obtain ⟨e, hmem, he⟩ := h
  exact ⟨e, hs.subset hmem, he⟩

/-! ## What escapes from the end of a phase -/

section EndOfPhase

/-- What the end of a phase keeps includes that there is a result. -/
theorem hasResult_of_endFrame {s s' : RunState} (h : EndFrame s s') (hs : s.HasResult) :
    s'.HasResult := by
  obtain ⟨r, hr⟩ := Option.isSome_iff_exists.mp hs
  obtain ⟨r', hr', -⟩ := h.result r hr
  exact Option.isSome_iff_exists.mpr ⟨r', hr'⟩

variable {E : PyExc → RunState → Prop}

theorem safe_callUser {α : Type} {f : ℕ → α} : Safe RunState.HasResult E (callUser f) :=
  fun _ h ↦ h

theorem safe_noteRaised {α : Type} {e : PyExc} :
    Safe RunState.HasResult Noted (do noteStep (.raised e); Act.raise e : Exec α) := fun _ h ↦
  ⟨h, .inr (List.mem_append_right _ (List.mem_singleton_self _))⟩

theorem safe_raise {α : Type} {e : PyExc} (h : e.isException = true) :
    Safe RunState.HasResult Noted (Act.raise e : Exec α) := fun _ hs ↦ ⟨hs, .inl h⟩

theorem safe_callRaising {α : Type} {f : ℕ → Except PyExc α} :
    Safe RunState.HasResult Noted (callRaising f) := by
  refine .bind safe_callUser fun r ↦ ?_
  cases r with
  | ok a => exact .pure
  | error e => exact safe_noteRaised

theorem safe_exceptException {α : Type} {x : Exec α} {handler : PyExc → Exec α}
    (hx : Safe RunState.HasResult Noted x)
    (hh : ∀ e, Safe RunState.HasResult (fun _ ↦ RunState.Untamed) (handler e)) :
    Safe RunState.HasResult (fun _ ↦ RunState.Untamed) (exceptException x handler) := by
  refine .catching hx fun e s he ↦ ?_
  cases hex : e.isException with
  | true => simpa [hex] using hh e s he.1
  | false => simpa [hex] using ⟨e, he.2.resolve_left (by simp [hex]), hex⟩

theorem safe_allValid (vs : List Validator) : Safe RunState.HasResult Noted (allValid vs) := by
  induction vs with
  | nil => exact .pure
  | cons v vs ih => exact .bind safe_callRaising fun _ ↦ .ite (fun _ ↦ ih) fun _ ↦ .pure

theorem safe_anyMarginal (vs : List Validator) : Safe RunState.HasResult Noted (anyMarginal vs) := by
  induction vs with
  | nil => exact .pure
  | cons v vs ih =>
      unfold anyMarginal
      cases v.isMarginal with
      | none => exact ih
      | some f => exact .bind safe_callRaising fun _ ↦ .ite (fun _ ↦ .pure) fun _ ↦ ih

theorem safe_validate (m : Measurement) :
    Safe RunState.HasResult (fun _ ↦ RunState.Untamed) m.validate :=
  safe_exceptException
    (.bind (safe_allValid _) fun _ ↦
      .ite (fun _ ↦ .bind (safe_anyMarginal _) fun _ ↦ .ite (fun _ ↦ .pure) fun _ ↦ .pure)
        fun _ ↦ .pure)
    fun _ ↦ .pure

theorem safe_verifyAndFixDiagnosis (diagnoser : Diagnoser) (d : Diagnosis) :
    Safe RunState.HasResult Noted (verifyAndFixDiagnosis diagnoser d) := by
  refine .ite (fun _ ↦ safe_raise (PyExc.isException_ofClass _ _)) fun _ ↦
    .ite (fun _ ↦ ?_) fun _ ↦ .pure
  cases he : d.evolveIsFailure with
  | ok d => exact .pure
  | error e => exact safe_raise (Diagnosis.isException_of_evolveIsFailure he)

section Diagnosers

variable {accept : Diagnosis → Exec Unit} (h : ∀ d, Safe RunState.HasResult Noted (accept d))

include h

theorem safe_convertItems (diagnoser : Diagnoser) (items : List DiagItem) :
    Safe RunState.HasResult Noted (convertItems diagnoser accept items) := by
  induction items with
  | nil => exact .pure
  | cons item rest ih =>
      cases item with
      | diagnosis d =>
          exact .bind (safe_verifyAndFixDiagnosis _ _) fun d ↦ .bind (h d) fun _ ↦ ih
      | other typeName => exact safe_raise (PyExc.isException_ofClass _ _)
      | raises e => exact safe_noteRaised

theorem safe_runDiagnoser (diagnoser : Diagnoser) :
    Safe RunState.HasResult Noted (runDiagnoser diagnoser accept) := by
  refine .bind safe_callUser fun r ↦ ?_
  cases r with
  | raised e => exact safe_noteRaised
  | nothing => exact .pure
  | single d => exact .bind (safe_verifyAndFixDiagnosis _ _) fun d ↦ h d
  | invalid => exact safe_raise (PyExc.isException_ofClass _ _)
  | iterable items => exact safe_convertItems h diagnoser items

end Diagnosers

theorem safe_recordException (e : PyExc) :
    Safe RunState.HasResult (fun _ ↦ RunState.Untamed) (recordException e) := by
  intro s hs
  obtain ⟨r, hr⟩ := Option.isSome_iff_exists.mp hs
  have hr : s.phaseState.phaseRecord.result = some r := hr
  simp only [recordException, wp_bind, wp_gets, hr, wp_ite, wp_pure, wp_modify]
  split
  · exact hs
  · rfl

theorem safe_finalizeMeasurementList (skipped : Bool) (ms : List Measurement) :
    Safe RunState.HasResult (fun _ ↦ RunState.Untamed) (finalizeMeasurementList skipped ms) := by
  induction ms with
  | nil => exact .pure
  | cons m ms ih =>
      refine .bind (.ite (fun _ ↦ .bind (safe_validate _) fun r ↦ ?_) fun _ ↦ .pure) fun _ ↦
        .bind ih fun _ ↦ .pure
      obtain ⟨m, e⟩ := r
      cases e with
      | none => exact .pure
      | some e => exact .bind (safe_recordException e) fun _ ↦ .pure

/-- A statement that raises nothing and that keeps the frame of the end of a phase. -/
theorem safe_of_endFrame {x : Exec Unit} (h : Within EndFrame x) (hr : ∀ s, ∃ s', x s = (.ok (), s')) :
    Safe RunState.HasResult E x := by
  intro s hs
  obtain ⟨s', hr⟩ := hr s
  have hf := h s
  rw [hr] at hf
  simpa [Act.wp, hr] using hasResult_of_endFrame hf hs

theorem safe_executePhaseDiagnosers :
    Safe RunState.HasResult (fun _ ↦ RunState.Untamed) executePhaseDiagnosers := by
  have haccept (d : Diagnosis) : Safe RunState.HasResult Noted (acceptPhaseDiagnosis d) := by
    refine safe_of_endFrame (endFrame_acceptPhaseDiagnosis d) fun s ↦ ?_
    unfold acceptPhaseDiagnosis
    cases d.isInternal <;> exact ⟨_, rfl⟩
  have hlist (ds : List Diagnoser) :
      Safe RunState.HasResult (fun _ ↦ RunState.Untamed) (executePhaseDiagnoserList ds) := by
    induction ds with
    | nil => exact .pure
    | cons d ds ih =>
        exact .bind (safe_exceptException (safe_runDiagnoser haccept d) safe_recordException)
          fun _ ↦ ih
  refine .bind .gets fun r ↦ ?_
  cases r with
  | none => exact .pure
  | some r => exact .ite (fun _ ↦ .pure) fun _ ↦ .bind .gets hlist

theorem safe_finalizePhase (env : Env) :
    Safe RunState.HasResult (fun _ ↦ RunState.Untamed) (finalizePhase env) := by
  refine .bind (.bind .gets fun _ ↦ .bind .gets fun _ ↦
      .bind (safe_finalizeMeasurementList _ _) fun _ ↦ .modify fun _ h ↦ h) fun _ ↦
    .bind (.modify fun s h ↦ ?_) fun _ ↦ .bind safe_executePhaseDiagnosers fun _ ↦
    .bind (.modify fun s h ↦ ?_) fun _ ↦ .bind safe_callUser fun _ ↦ .modify fun _ h ↦ h
  · rcases s.phaseState.result_setPrediagnosisPhaseOutcome env.conf with hr | hr
    · exact (congrArg Option.isSome hr).trans h
    · exact congrArg Option.isSome hr
  · exact (congrArg Option.isSome s.phaseState.result_setPostdiagnosisPhaseOutcome).trans h

end EndOfPhase

/-! ## The execution of a phase -/

/-- Inside the execution of a phase that began in the state `s₀`: the path so
far, and where the executor thread stands. -/
structure Along (s₀ : RunState) (thread : Option PhaseThread) (lock : Bool) (s : RunState) : Prop where
  path : Sync.Path s₀.sync s.sync
  depth : s.sync.depth = s₀.sync.depth
  thread : s.sync.currentPhaseThread = thread
  lock : s.sync.currentPhaseThreadLock = lock

/-- The phase executor is between two phases and no `PhaseState` is left over. -/
structure AtRest (s : RunState) : Prop where
  thread : s.sync.currentPhaseThread = none
  lock : s.sync.currentPhaseThreadLock = false
  quiet : s.sync.runningPhaseState = false

theorem AtRest.along {s : RunState} (h : AtRest s) : Along s none false s :=
  ⟨.refl, rfl, h.thread, h.lock⟩

theorem Along.mapPhaseState {s₀ s : RunState} {thread : Option PhaseThread} {lock : Bool}
    (h : Along s₀ thread lock s) (f : PhaseState → PhaseState) :
    Along s₀ thread lock (s.mapPhaseState f) := ⟨h.path, h.depth, h.thread, h.lock⟩

theorem Along.of_sync {s₀ s s' : RunState} {thread : Option PhaseThread} {lock : Bool}
    (h : Along s₀ thread lock s) (hs : s'.sync = s.sync) : Along s₀ thread lock s' :=
  ⟨hs ▸ h.path, hs ▸ h.depth, hs ▸ h.thread, hs ▸ h.lock⟩

theorem AtRest.of_sync {s s' : RunState} (h : AtRest s) (hs : s'.sync = s.sync) : AtRest s' :=
  ⟨hs ▸ h.thread, hs ▸ h.lock, hs ▸ h.quiet⟩

theorem Along.endFrame {s₀ s s' : RunState} {thread : Option PhaseThread} {lock : Bool}
    (h : Along s₀ thread lock s) (hs : EndFrame s s') : Along s₀ thread lock s' := h.of_sync hs.sync

theorem Along.trans {s₀ s₁ s : RunState} {thread thread' : Option PhaseThread} {lock lock' : Bool}
    (h : Along s₀ thread lock s₁) (h' : Along s₁ thread' lock' s) : Along s₀ thread' lock' s :=
  ⟨h.path.trans h'.path, h'.depth.trans h.depth, h'.thread, h'.lock⟩

theorem Along.abort {s₀ s : RunState} {thread : Option PhaseThread} {lock : Bool}
    (h : Along s₀ thread lock s) (ha : s₀.sync.abort = true) : s.sync.abort = true :=
  h.path.keeps (fun _ _ ↦ Sync.abort_step) ha

/-- An operation on the shared state, after any steps of the aborting thread. -/
theorem wp_shared_intro {α : Type} {env : Env} {op : Sync → α × Sync} {Q : α → RunState → Prop}
    {E : PyExc → RunState → Prop} {s : RunState}
    (h : ∀ i, Sync.Path s.sync i → Sync.SameView s.sync i → Q (op i).1 { s with sync := (op i).2 }) :
    wp (shared env op) Q E s :=
  h _ (Sync.path_interfere _ _) (Sync.sameView_interfere _ _)

/-- The same, for an operation that leaves the executor thread where it stands. -/
theorem Along.shared {α : Type} {env : Env} {op : Sync → α × Sync} {s₀ s : RunState}
    {thread t : Option PhaseThread} {lock l : Bool} {E : PyExc → RunState → Prop}
    (h : Along s₀ thread lock s)
    (hstep : ∀ i, Sync.SameView s.sync i → Sync.ThreadStep i (op i).2)
    (hop : ∀ i : Sync, i.currentPhaseThread = thread → i.currentPhaseThreadLock = lock →
      (op i).2.depth = i.depth ∧ (op i).2.currentPhaseThread = t ∧
        (op i).2.currentPhaseThreadLock = l) :
    wp (shared env op) (fun a s' ↦ Along s₀ t l s' ∧
      ∃ i, Sync.SameView s.sync i ∧ a = (op i).1 ∧ s' = { s with sync := (op i).2 }) E s := by
  refine wp_shared_intro fun i hpath hview ↦ ?_
  have hd := hview.depth.trans h.depth
  have ht := hview.currentPhaseThread.trans h.thread
  obtain ⟨hd', ht', hl'⟩ := hop i ht (hview.currentPhaseThreadLock.trans h.lock)
  exact ⟨⟨(h.path.trans hpath).tail (hstep i hview), hd'.trans hd, ht', hl'⟩, i, hview, rfl, rfl⟩

section Execution

variable {env : Env} {p : PhaseDescriptor} {rec : Option SubtestRecord}

theorem enterPhase_spec {s : RunState} (h : AtRest s) :
    wp (enterPhase env p)
      (fun _ s' ↦ Along s none false s' ∧ s'.testState = s.testState ∧
        s'.sync.startPending = s.sync.startPending ∧
        ∃ now, s'.steps = s.steps ++ [.phaseEntered p.id now] ∧
          s'.phaseState = .fromDescriptor p s.testState.diagnosesStore now)
      (fun _ _ ↦ False) s := by
  unfold enterPhase
  rw [wp_bind]
  refine (h.along.shared (fun i _ ↦ .enterRunning i) fun i ht hl ↦ ⟨rfl, ht, hl⟩).mono ?_
    fun _ _ hf ↦ hf
  rintro running s' ⟨hs', i, hview, rfl, rfl⟩
  have hquiet : (Sync.enterRunningPhase i).1 = false := hview.runningPhaseState h.quiet
  simp only [hquiet, Bool.false_eq_true, if_false, wp_bind, timeMillis, noteStep, wp_callUser, wp_modify]
  exact ⟨⟨hs'.path, hs'.depth, hs'.thread, hs'.lock⟩, rfl, hview.startPending, _, rfl, rfl⟩

theorem leavePhase_spec {s₀ s : RunState} (h : Along s₀ none false s) (hr : s.HasResult) :
    wp (leavePhase env)
      (fun _ s' ↦ Along s₀ none false s' ∧ (s.sync.abort = true → s'.sync.abort = true) ∧
        AtRest s' ∧ s.steps <+: s'.steps ∧ (∃ r, s'.testRecord.phases = s.testRecord.phases ++ [r]) ∧
        s'.sync.startPending = s.sync.startPending ∧
        ∀ r, s.result = some r → ∃ r', s'.result = some r' ∧ ResultFrom r r')
      (fun _ s' ↦ Along s₀ none false s' ∧ s.steps <+: s'.steps ∧ s'.Untamed ∧
        s'.testRecord.phases = s.testRecord.phases) s := by
  unfold leavePhase
  rw [wp_bind, wp_catching]
  refine ((safe_finalizePhase env s hr).and ((endFrame_finalizePhase env).wp s)).mono ?_ ?_
  · rintro - s₁ ⟨-, hf⟩
    rw [wp_bind, wp_modify]
    have h₁ := h.endFrame hf
    have h₂ : Along s₀ none false
        (s₁.mapTestRecord (·.addPhaseRecord s₁.phaseState.phaseRecord)) :=
      ⟨h₁.path, h₁.depth, h₁.thread, h₁.lock⟩
    refine (h₂.shared (fun i _ ↦ .leaveRunning i) fun i ht hl ↦ ⟨rfl, ht, hl⟩).mono ?_
      fun _ _ hf ↦ hf
    rintro - s₂ ⟨hs₂, i, hview, -, rfl⟩
    refine ⟨hs₂, fun ha ↦ hview.abort ((congrArg Sync.abort hf.sync).trans ha),
      ⟨hs₂.thread, hs₂.lock, rfl⟩, hf.steps, ⟨s₁.phaseState.phaseRecord, ?_⟩, ?_, hf.result⟩
    · exact congrArg (· ++ [s₁.phaseState.phaseRecord]) hf.phases
    · exact hview.startPending.trans (congrArg Sync.startPending hf.sync)
  · rintro e s' ⟨⟨e', he', hne'⟩, hf⟩
    simp only [noteStep, wp_bind, wp_modify, wp_raise]
    refine ⟨(h.endFrame hf).of_sync rfl, hf.steps.trans (List.prefix_append _ _), ⟨e', ?_, hne'⟩,
      hf.phases⟩
    exact List.mem_append_left _ he'

/-- What is known of an outcome: FAIL_SUBTEST needs a subtest, and a
`ThreadTerminationError` comes from `abort` or from a thread that died. -/
def OutcomeKnown (rec : Option SubtestRecord) (o : PhaseExecutionOutcome) (s : RunState) : Prop :=
  (o = .result .FAIL_SUBTEST → rec.isSome = true) ∧
    (o = .terminated → s.sync.abort = true ∨ .threadDied false ∈ s.steps)

theorem threadOutcome_ne_terminated {ends : ThreadEnd} : threadOutcome rec ends ≠ some .terminated := by
  unfold threadOutcome
  split <;> (try split_ifs) <;> simp

theorem isSome_of_threadOutcome {ends : ThreadEnd}
    (h : threadOutcome rec ends = some (.result .FAIL_SUBTEST)) : rec.isSome = true := by
  unfold threadOutcome at h
  split at h <;> (try split_ifs at h) <;> simp_all [Option.isSome_iff_ne_none]

theorem joinOrDie_spec {s₀ s : RunState} {t : PhaseThread} (h : Along s₀ (some t) false s)
    (hseen : Sync.AbortSeen s₀.sync) :
    wp (joinOrDie env p t rec)
      (fun o s' ↦ Along s₀ (some t) false s' ∧ s'.testState = s.testState ∧
        s.steps <+: s'.steps ∧ s'.sync.startPending = s.sync.startPending ∧ OutcomeKnown rec o s')
      (fun _ _ ↦ False) s := by
  unfold joinOrDie
  simp only [wp_bind, wp_callUser, wp_gets, wp_modify]
  have h' : Along s₀ (some t) false { s with moment := s.moment + 1 } :=
    ⟨h.path, h.depth, h.thread, h.lock⟩
  refine ((h'.mapPhaseState _).shared (fun i hv ↦ .join i t (hv.currentPhaseThread.trans h.thread)) fun i ht hl ↦ ⟨rfl, ht, hl⟩).mono ?_ fun _ _ hf ↦ hf
  rintro killed s₁ ⟨h₁, i, hview, rfl, rfl⟩
  have habort : (Sync.joinPhaseThread t i).1 = true → (Sync.joinPhaseThread t i).2.abort = true := by
    intro hk
    have hs₁ := h₁.path.keeps (fun _ _ ↦ Sync.abortSeen_step) hseen
    exact hs₁.killed (List.ne_nil_of_mem (List.contains_iff_mem.mp hk))
  split
  · rename_i o ho
    refine ⟨h₁, rfl, List.prefix_rfl, hview.startPending, fun hf ↦ ?_, fun ht ↦ ?_⟩
    · exact isSome_of_threadOutcome (hf ▸ ho)
    · exact absurd (ht ▸ ho) threadOutcome_ne_terminated
  · rw [wp_bind]
    refine ⟨⟨h₁.path, h₁.depth, h₁.thread, h₁.lock⟩, rfl, List.prefix_append _ _, hview.startPending,
      by simp, fun _ ↦ ?_⟩
    cases hk : (Sync.joinPhaseThread t i).1 with
    | true => exact .inl (habort hk)
    | false => exact .inr (by simp [RunState.addStep])

theorem OutcomeKnown.of_resultFrom {o o' : PhaseExecutionOutcome} {s s' : RunState}
    (h : OutcomeKnown rec o s) (hr : ResultFrom o o')
    (habort : s.sync.abort = true → s'.sync.abort = true) (hsteps : s.steps <+: s'.steps) :
    OutcomeKnown rec o' s' := by
  rcases hr with rfl | rfl | ⟨e, rfl⟩
  · exact ⟨h.1, fun ht ↦ (h.2 ht).imp habort fun hd ↦ hsteps.subset hd⟩
  · exact ⟨nofun, nofun⟩
  · exact ⟨nofun, nofun⟩

/-- One run of a phase from a state at rest, where the protocol allows a start. -/
theorem runPhaseOnce_spec {s : RunState} (last : Bool) (h : AtRest s)
    (hseen : Sync.AbortSeen s.sync) (hguard : 0 < s.sync.depth ∨ s.sync.startPending = true) :
    wp (runPhaseOnce env p last rec)
      (fun o s' ↦ Along s none false s' ∧ AtRest s' ∧ OutcomeKnown rec o s' ∧
        ∃ r, s'.testRecord.phases = s.testRecord.phases ++ [r])
      (fun _ s' ↦ Along s none false s' ∧ s'.Untamed ∧
        s'.testRecord.phases = s.testRecord.phases) s := by
  unfold runPhaseOnce
  rw [wp_bind]
  refine (enterPhase_spec h).mono ?_ fun _ _ hf ↦ hf.elim
  rintro - s₁ ⟨h₁, ht₁, hp₁, -⟩
  rw [wp_bind, wp_modify, wp_bind]
  refine ((h₁.mapPhaseState _).shared (fun i _ ↦ .lockPhaseThread i)
    fun i ht _ ↦ ⟨rfl, ht, rfl⟩).mono ?_ fun _ _ hf ↦ hf
  rintro - s₂ ⟨h₂, i₂, hv₂, -, rfl⟩
  rw [wp_bind]
  refine (h₂.shared (fun i _ ↦ .checkStopping i) fun i ht hl ↦ ⟨rfl, ht, hl⟩).mono ?_
    fun _ _ hf ↦ hf
  rintro stopping s₃ ⟨h₃, i₃, hv₃, rfl, rfl⟩
  have hp₃ : i₃.startPending = s.sync.startPending :=
    hv₃.startPending.trans (hv₂.startPending.trans hp₁)
  have hphases : s₁.testRecord.phases = s.testRecord.phases :=
    congrArg (fun t ↦ t.testRecord.phases) ht₁
  rw [wp_ite]
  split
  · -- `_stopping` is set: the phase gets a record but no thread.
    rename_i hstop
    have habort := (h₃.path.keeps (fun _ _ ↦ Sync.abortSeen_step) hseen).stopping hstop
    rw [wp_bind]
    refine (h₃.shared (fun i _ ↦ .unlockPhaseThread i) fun i ht _ ↦ ⟨rfl, ht, rfl⟩).mono ?_
      fun _ _ hf ↦ hf
    rintro - s₄ ⟨h₄, i₄, hv₄, -, rfl⟩
    rw [wp_bind, wp_modify, wp_bind]
    refine (leavePhase_spec (h₄.mapPhaseState _) ?_).mono ?_ ?_
    · rfl
    · rintro - s₅ ⟨h₅, h₄₅, hrest, -, ⟨r, hr⟩, -, -⟩
      exact ⟨h₅, hrest, ⟨by simp, fun _ ↦ .inl (h₄₅ (hv₄.abort habort))⟩, r, hr.trans (congrArg (· ++ [r]) hphases)⟩
    · rintro e s₅ ⟨h₅, -, hu, hp⟩
      exact ⟨h₅, hu, hp.trans hphases⟩
  · rename_i hstop
    have hgo : i₃.stopping = false := by simpa [Sync.stoppingIsSet] using hstop
    rw [wp_bind]
    refine (h₃.shared (fun i hv ↦ .start i ?_) fun i ht hl ↦ ⟨rfl, ht, hl⟩).mono ?_ fun _ _ hf ↦ hf
    · rw [hv.depth, h₃.depth, hv.startPending]
      simpa [Sync.stoppingIsSet, Sync.record, hgo, hp₃] using hguard
    rintro t s₄ ⟨h₄, i₄, hv₄, rfl, rfl⟩
    rw [wp_bind]
    refine (h₄.shared (t := some (Sync.startPhaseThread i₄).1) (l := true)
      (fun i hv ↦ .setThread i _ ?_) fun i _ hl ↦ ⟨rfl, rfl, hl⟩).mono ?_ fun _ _ hf ↦ hf
    · exact hv.depth.symm
    rintro - s₅ ⟨h₅, i₅, hv₅, -, rfl⟩
    rw [wp_bind]
    refine (h₅.shared (fun i _ ↦ .unlockPhaseThread i) fun i ht _ ↦ ⟨rfl, ht, rfl⟩).mono ?_
      fun _ _ hf ↦ hf
    rintro - s₆ ⟨h₆, i₆, hv₆, -, rfl⟩
    rw [wp_bind]
    refine (joinOrDie_spec h₆ hseen).mono ?_ fun _ _ hf ↦ hf.elim
    rintro o s₇ ⟨h₇, ht₇, hs₇, -, hknown⟩
    have hphases₇ : s₇.testRecord.phases = s₁.testRecord.phases :=
      congrArg (fun t ↦ t.testRecord.phases) ht₇
    rw [wp_bind, wp_modify, wp_bind]
    refine ((h₇.mapPhaseState _).shared (fun i _ ↦ .clearThread i)
      fun i _ hl ↦ ⟨rfl, rfl, hl⟩).mono ?_ fun _ _ hf ↦ hf
    rintro - s₈ ⟨h₈, i₈, hv₈, -, rfl⟩
    rw [wp_bind]
    refine (leavePhase_spec h₈ ?_).mono ?_ ?_
    · rfl
    · rintro - s₉ ⟨h₉, h₈₉, hrest, hsteps, ⟨r, hr⟩, -, hresult⟩
      have hphases₉ : s₉.testRecord.phases = s.testRecord.phases ++ [r] := by
        exact hr.trans (congrArg (· ++ [r]) (hphases₇.trans hphases))
      obtain ⟨o', ho', hfrom⟩ := hresult o rfl
      have hknown' := hknown.of_resultFrom hfrom (fun ha ↦ h₈₉ (hv₈.abort ha)) hsteps
      rw [wp_ite]
      split
      · exact ⟨h₉, hrest, ⟨by simp, by simp⟩, r, hphases₉⟩
      · rw [wp_bind, wp_gets]
        dsimp only
        rw [show s₉.phaseState.phaseRecord.result = some o' from ho']
        exact ⟨h₉, hrest, hknown', r, hphases₉⟩
    · rintro e s₉ ⟨h₉, -, hu, hp⟩
      exact ⟨h₉, hu, hp.trans (hphases₇.trans hphases)⟩

/-- `run_if` kept the phase out, and it wrote no record. -/
structure KeptOut (s : RunState) (o : PhaseExecutionOutcome) (s' : RunState) : Prop where
  testState : s'.testState = s.testState
  moment : s'.moment = s.moment + 1
  sync : s'.sync = s.sync.setStartPending false
  outcome : o = .result .SKIP ∨ ∃ e, o = .raised e

namespace KeptOut

variable {s s' : RunState} {o : PhaseExecutionOutcome} (h : KeptOut s o s')

include h

theorem phases : s'.testRecord.phases = s.testRecord.phases := congrArg (·.testRecord.phases) h.testState

theorem ne_stop : o ≠ .result .STOP := by
  rcases h.outcome with rfl | ⟨e, rfl⟩ <;> nofun

theorem ne_failSubtest : o ≠ .result .FAIL_SUBTEST := by
  rcases h.outcome with rfl | ⟨e, rfl⟩ <;> nofun

theorem ne_terminated : o ≠ .terminated := by
  rcases h.outcome with rfl | ⟨e, rfl⟩ <;> nofun

theorem isTimeout : o.isTimeout = false := by
  rcases h.outcome with rfl | ⟨e, rfl⟩ <;> rfl

theorem isRepeat : o.isRepeat = false := by
  rcases h.outcome with rfl | ⟨e, rfl⟩ <;> rfl

end KeptOut

/-- `_execute_phase_once` runs the phase, unless `run_if` keeps it out or raises what
is no `Exception`. -/
theorem wp_executePhaseOnce {s : RunState} {last : Bool} {Q : PhaseExecutionOutcome → RunState → Prop}
    {E : PyExc → RunState → Prop}
    (hout : p.options.declines s.moment = true → ∀ o s', KeptOut s o s' → Q o s')
    (hraise : ∀ e s', s'.sync = s.sync.setStartPending false → s'.testState = s.testState →
      s'.Untamed → E e s')
    (hin : p.options.declines s.moment = false → ∀ s', s'.sync = s.sync → s'.testState = s.testState →
      wp (runPhaseOnce env p last rec) Q E s') :
    wp (executePhaseOnce env p last rec) Q E s := by
  unfold executePhaseOnce
  cases hrun : p.options.runIf with
  | none => exact hin (by simp [PhaseOptions.declines, hrun]) s rfl rfl
  | some runIf =>
      simp only [noteThread, noteStep, wp_bind, wp_callUser]
      rcases hr : runIf s.moment with e | run
      · have hdec : p.options.declines s.moment = true := by simp [PhaseOptions.declines, hrun, hr]
        simp only [wp_bind, wp_modify, wp_ite, wp_pure, wp_raise]
        cases he : e.isException with
        | true => exact hout hdec _ _ ⟨rfl, rfl, rfl, .inr ⟨e, rfl⟩⟩
        | false =>
            exact hraise _ _ rfl rfl ⟨e, List.mem_append_right _ (List.mem_singleton_self _), he⟩
      · have hdec : p.options.declines s.moment = !run := by simp [PhaseOptions.declines, hrun, hr]
        cases run with
        | true => exact hin hdec _ rfl rfl
        | false =>
            simp only [wp_bind, wp_modify, wp_pure]
            exact hout hdec _ _ ⟨rfl, rfl, rfl, .inl rfl⟩

/-- `_execute_phase_once` writes one record, or none when `run_if` declines. -/
theorem executePhaseOnce_spec {s : RunState} (last : Bool) (h : AtRest s)
    (hseen : Sync.AbortSeen s.sync) (hguard : 0 < s.sync.depth ∨ s.sync.startPending = true) :
    wp (executePhaseOnce env p last rec)
      (fun o s' ↦ Along s none false s' ∧ AtRest s' ∧ OutcomeKnown rec o s' ∧
        if p.options.declines s.moment then
          s'.testRecord.phases = s.testRecord.phases ∧ o.isTimeout = false ∧ o.isRepeat = false
        else ∃ r, s'.testRecord.phases = s.testRecord.phases ++ [r])
      (fun _ s' ↦ Along s none false s' ∧ s'.Untamed ∧
        s'.testRecord.phases = s.testRecord.phases) s := by
  have hoff {s' : RunState} (hs' : s'.sync = s.sync.setStartPending false) :
      Along s none false s' ∧ AtRest s' := by
    have ha : Along s none false (s.mapSync (Sync.setStartPending false)) :=
      ⟨.single (.setPending _ _ nofun), rfl, h.thread, h.lock⟩
    have hr : AtRest (s.mapSync (Sync.setStartPending false)) := ⟨h.thread, h.lock, h.quiet⟩
    exact ⟨ha.of_sync hs', hr.of_sync hs'⟩
  refine wp_executePhaseOnce ?_ ?_ ?_
  · intro hdec o s' ho
    rw [if_pos hdec]
    exact ⟨(hoff ho.sync).1, (hoff ho.sync).2, ⟨ho.ne_failSubtest.elim, ho.ne_terminated.elim⟩, ho.phases,
      ho.isTimeout, ho.isRepeat⟩
  · intro e s' hsync htest hu
    exact ⟨(hoff hsync).1, hu, congrArg (·.testRecord.phases) htest⟩
  · intro hdec s₁ hsync htest
    have hphases : s₁.testRecord.phases = s.testRecord.phases := congrArg (·.testRecord.phases) htest
    simp only [hdec, Bool.false_eq_true, if_false, ← hphases]
    refine (runPhaseOnce_spec last (h.of_sync hsync) (hsync ▸ hseen) (hsync ▸ hguard)).mono ?_ ?_
    · exact fun o s' ⟨ha, hs'⟩ ↦ ⟨(h.along.of_sync hsync).trans ha, hs'⟩
    · exact fun e s' ⟨ha, hs'⟩ ↦ ⟨(h.along.of_sync hsync).trans ha, hs'⟩

/-- A last phase record was looked up where there was none. -/
def RunState.NoRecord (s : RunState) : Prop := .lastPhaseRecord false ∈ s.steps

theorem lastRepeatFailed_spec {s : RunState} (last : Bool) :
    wp (lastRepeatFailed last)
      (fun b s' ↦ s'.sync = s.sync ∧ ∃ init r, s.testRecord.phases = init ++ [r] ∧
        (b = true ↔ r.outcome = some .FAIL) ∧ s'.testRecord.phases =
          if b = true ∧ last = false then init ++ [{ r with outcome := some .SKIP }] else init ++ [r])
      (fun _ s' ↦ s'.sync = s.sync ∧ s'.NoRecord ∧ s.testRecord.phases = [] ∧
        s'.testRecord.phases = []) s := by
  simp only [lastRepeatFailed, noteStep, wp_bind, wp_gets, wp_modify]
  rcases hl : s.testRecord.phases.getLast? with _ | r
  · have hnil := List.getLast?_eq_none_iff.mp hl
    exact ⟨rfl, by simp [RunState.NoRecord, RunState.addStep, hnil], hnil, hnil⟩
  · obtain ⟨init, hphases⟩ := List.getLast?_eq_some_iff.mp hl
    have hphases' : s.testState.testRecord.phases = init ++ [r] := hphases
    simp only [wp_ite, wp_bind, wp_modify, wp_pure]
    split
    · rename_i hf
      simp only [Bool.and_eq_true, beq_iff_eq, Bool.not_eq_true'] at hf
      refine ⟨rfl, init, r, hphases, by simp, ?_⟩
      simp [RunState.mapTestRecord, RunState.mapTestState, RunState.addStep, RunState.testRecord, hf,
        hphases']
    · rename_i hf
      refine ⟨rfl, init, r, hphases, by simp, ?_⟩
      cases last <;>
        simp_all [RunState.addStep, RunState.testRecord]

/-- What can escape from the execution of a phase. -/
def RunState.PhaseFails (s : RunState) : Prop := s.Untamed ∨ s.NoRecord

theorem shouldRepeat_spec {s : RunState} (o : PhaseExecutionOutcome) (last : Bool) :
    wp (shouldRepeat p o last) (fun _ s' ↦ s'.sync = s.sync)
      (fun _ s' ↦ s'.sync = s.sync ∧ s'.PhaseFails) s := by
  simp only [shouldRepeat, wp_ite, wp_pure]
  split_ifs
  exact (lastRepeatFailed_spec last).mono (fun _ _ h ↦ h.1) fun _ _ h ↦ ⟨h.1, .inr h.2.1⟩

theorem OutcomeKnown.mono {o : PhaseExecutionOutcome} {s s' : RunState} (h : OutcomeKnown rec o s)
    (habort : s.sync.abort = true → s'.sync.abort = true) (hsteps : s.steps <+: s'.steps) :
    OutcomeKnown rec o s' := h.of_resultFrom (.inl rfl) habort hsteps

/-- The protocol allows a start. -/
def RunState.MayStart (s : RunState) : Prop := 0 < s.sync.depth ∨ s.sync.startPending = true

/-- What a statement that executes a phase comes to when it begins at rest. -/
def Executes (rec : Option SubtestRecord) (x : Exec PhaseExecutionOutcome) : Prop :=
  ∀ s, AtRest s → Sync.AbortSeen s.sync → s.MayStart →
    wp x (fun o s' ↦ Along s none false s' ∧ AtRest s' ∧ OutcomeKnown rec o s')
      (fun _ s' ↦ Along s none false s' ∧ s'.PhaseFails) s

theorem executePhaseRound_spec (last : Bool) {next : Exec PhaseExecutionOutcome}
    (hnext : last = false → Executes rec next) :
    Executes rec (executePhaseRound env p rec last next) := by
  intro s h hseen hstart
  unfold executePhaseRound
  rw [wp_bind]
  refine (h.along.shared (fun i _ ↦ .checkStopping i) fun i ht hl ↦ ⟨rfl, ht, hl⟩).mono ?_
    fun _ _ hf ↦ hf
  rintro stopping s₁ ⟨h₁, i₁, hv₁, rfl, rfl⟩
  have hrest₁ : AtRest { s with sync := (Sync.stoppingIsSet i₁).2 } :=
    ⟨h₁.thread, h₁.lock, hv₁.runningPhaseState h.quiet⟩
  rw [wp_ite]
  split
  · exact ⟨h₁, hrest₁, by simp, by simp⟩
  rename_i hgo
  have hstart₁ : RunState.MayStart { s with sync := (Sync.stoppingIsSet i₁).2 } := by
    have hgo : i₁.stopping = false := by simpa [Sync.stoppingIsSet] using hgo
    refine hstart.imp (fun hd ↦ h₁.depth.symm ▸ hd) fun hp ↦ ?_
    simp [Sync.stoppingIsSet, Sync.record, hv₁.startPending, hp, hgo]
  have hseen₁ := h₁.path.keeps (fun _ _ ↦ Sync.abortSeen_step) hseen
  rw [wp_bind]
  refine (executePhaseOnce_spec last hrest₁ hseen₁ hstart₁).mono ?_ ?_
  · rintro o s₂ ⟨h₂, hrest₂, hknown, -⟩
    rw [wp_bind]
    have hframe := (phaseKept_phaseFrame env).rounds.shouldRepeat p o last
    refine ((shouldRepeat_spec o last).and (hframe.wp s₂)).mono ?_ ?_
    · rintro again s₃ ⟨hs₃, hf₃⟩
      have h₃ := (h₁.trans h₂).of_sync hs₃
      have hrest₃ := hrest₂.of_sync hs₃
      rw [wp_ite]
      split
      · rename_i hagain
        obtain ⟨-, hlast⟩ := Bool.and_eq_true_iff.mp hagain
        rw [wp_bind, noteThread, wp_modify]
        have h₄ : Along s none false (s₃.mapSync Sync.repeatPhase) :=
          ⟨h₃.path.tail (.repeatPhase _), h₃.depth, h₃.thread, h₃.lock⟩
        have hrest₄ : AtRest (s₃.mapSync Sync.repeatPhase) :=
          ⟨hrest₃.thread, hrest₃.lock, hrest₃.quiet⟩
        have hseen₄ := h₄.path.keeps (fun _ _ ↦ Sync.abortSeen_step) hseen
        refine (hnext (by simpa using hlast) _ hrest₄ hseen₄ (.inr rfl)).mono ?_ ?_
        · rintro o s₅ ⟨h₅, hs₅⟩
          exact ⟨h₄.trans h₅, hs₅⟩
        · rintro e s₅ ⟨h₅, hs₅⟩
          exact ⟨h₄.trans h₅, hs₅⟩
      · exact ⟨h₃, hrest₃, hknown.mono (fun ha ↦ hs₃ ▸ ha) hf₃.steps⟩
    · rintro e s₃ ⟨⟨hs₃, hfail⟩, _⟩
      exact ⟨(h₁.trans h₂).of_sync hs₃, hfail⟩
  · rintro e s₂ ⟨h₂, hu, _⟩
    exact ⟨h₁.trans h₂, .inl hu⟩

/-- `execute_phase` from a state at rest keeps to the protocol and leaves a
state at rest; what escapes from it has left its trace. -/
theorem executePhase_spec : Executes rec (executePhase env p rec) := by
  unfold executePhase
  generalize (p.options.limit - 1).toNat = repeatsLeft
  induction repeatsLeft with
  | zero => exact executePhaseRound_spec true nofun
  | succ repeatsLeft ih => exact executePhaseRound_spec false fun _ ↦ ih

end Execution

end OpenHtf
