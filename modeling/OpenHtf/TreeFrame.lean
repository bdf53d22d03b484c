import OpenHtf.TestExecutor

/-!
# What the execution of a node leaves alone

Whatever the phase executor does, the execution of a node only adds to the
events, keeps the last outcome once there is one, and of the subtest records
that exist already it changes at most the one of the current subtest, to FAIL.
-/

set_option autoImplicit false

namespace OpenHtf

open Act TestExecutor

/-- The enclosing activities that an event names. -/
def Event.ctx : Event → Option (List Frame)
  | .visited ctx _ _ | .executing ctx _ _ | .ended ctx _ _ _ | .skipped ctx _ _ _
  | .groupMain ctx _ _ _ | .groupTeardown ctx _ _ | .groupCompleted ctx _ => some ctx
  | _ => none

namespace World

/-- The current subtest is one whose record has been made. -/
def Knows (w : World) (rec : Option ℕ) : Prop := ∀ i ∈ rec, i < w.subtestsMade

/-- The events from `w` on. -/
def emitted (w w' : World) : List Event := w'.events.drop w.events.length

theorem emitted_of_eq {w w' : World} {l : List Event} (h : w'.events = w.events ++ l) :
    w.emitted w' = l := by
  rw [emitted, h, List.drop_left]

theorem events_eq {w w' : World} (h : w.events <+: w'.events) :
    w'.events = w.events ++ w.emitted w' := by
  obtain ⟨l, hl⟩ := h
  rw [emitted_of_eq hl.symm, hl]

@[simp] theorem emitted_self (w : World) : w.emitted w = [] := by simp [emitted]

theorem emitted_trans {w w₁ w₂ : World} (h : w.events <+: w₁.events)
    (h' : w₁.events <+: w₂.events) : w.emitted w₂ = w.emitted w₁ ++ w₁.emitted w₂ := by
  apply emitted_of_eq
  rw [← List.append_assoc, ← events_eq h, ← events_eq h']

theorem emitted_addEvent (w : World) (e : Event) : w.emitted (w.addEvent e) = [e] :=
  emitted_of_eq rfl

/-- Between a first and a last event. -/
theorem emitted_between {w w' : World} {e : Event} (e' : Event)
    (h : (w.addEvent e).events <+: w'.events) :
    w.emitted (w'.addEvent e') = e :: ((w.addEvent e).emitted w' ++ [e']) := by
  apply emitted_of_eq
  rw [addEvent_events, events_eq h, addEvent_events]
  simp

end World

/-- What the execution of a node under the subtest `rec` keeps. -/
structure TreeFrame (rec : Option ℕ) (w w' : World) : Prop where
  callstack : w'.callstack = w.callstack
  events : w.events <+: w'.events
  contexts : ∀ e ∈ w.emitted w', ∀ ctx ∈ e.ctx, w.callstack <:+ ctx
  created : w'.testStateCreated = w.testStateCreated
  lastOutcome : w.lastOutcome.isSome = true → w'.lastOutcome = w.lastOutcome
  made : w.subtestsMade ≤ w'.subtestsMade
  kept : ∀ j < w.subtestsMade, .subtestFailed j ∉ w.emitted w' →
    w'.subtestRecords j = w.subtestRecords j
  failed : ∀ j < w.subtestsMade, .subtestFailed j ∈ w.emitted w' →
    rec = some j ∧ w'.subtestRecords j = { w.subtestRecords j with outcome := some .FAIL }

namespace TreeFrame

variable {rec : Option ℕ} {w w' w₁ w₂ : World}

/-- A step that adds no event and changes no subtest record. -/
theorem of_eq (hstack : w'.callstack = w.callstack) (hevents : w'.events = w.events)
    (hcreated : w'.testStateCreated = w.testStateCreated)
    (hlast : w.lastOutcome.isSome = true → w'.lastOutcome = w.lastOutcome)
    (hmade : w.subtestsMade ≤ w'.subtestsMade)
    (hrecords : ∀ j < w.subtestsMade, w'.subtestRecords j = w.subtestRecords j) :
    TreeFrame rec w w' := by
  have hnone : w.emitted w' = [] := World.emitted_of_eq (by rw [hevents, List.append_nil])
  refine ⟨hstack, hevents ▸ List.prefix_rfl, ?_, hcreated, hlast, hmade, fun j hj _ ↦ hrecords j hj, ?_⟩
  · simp [hnone]
  · simp [hnone]

theorem refl (rec : Option ℕ) (w : World) : TreeFrame rec w w :=
  of_eq rfl rfl rfl (fun _ ↦ rfl) (Nat.le_refl _) fun _ _ ↦ rfl

theorem trans (h : TreeFrame rec w w₁) (h' : TreeFrame rec w₁ w₂) : TreeFrame rec w w₂ := by
  have hem := World.emitted_trans h.events h'.events
  refine ⟨h'.callstack.trans h.callstack, h.events.trans h'.events, ?_,
    h'.created.trans h.created, fun hs ↦ ?_, Nat.le_trans h.made h'.made, fun j hj hn ↦ ?_, fun j hj hm ↦ ?_⟩
  · intro e he ctx hctx
    rw [hem, List.mem_append] at he
    rcases he with he | he
    · exact h.contexts e he ctx hctx
    · exact h.callstack ▸ h'.contexts e he ctx hctx
  · have hs₁ := h.lastOutcome hs
    exact (h'.lastOutcome (hs₁ ▸ hs)).trans hs₁
  · rw [hem, List.mem_append, not_or] at hn
    exact (h'.kept j (by have := h.made; omega) hn.2).trans (h.kept j hj hn.1)
  · have hj₁ : j < w₁.subtestsMade := by have := h.made; omega
    rw [hem, List.mem_append] at hm
    by_cases hm₁ : .subtestFailed j ∈ w.emitted w₁
    · obtain ⟨hrec, hr₁⟩ := h.failed j hj hm₁
      refine ⟨hrec, ?_⟩
      by_cases hm₂ : .subtestFailed j ∈ w₁.emitted w₂
      · rw [(h'.failed j hj₁ hm₂).2, hr₁]
      · rw [h'.kept j hj₁ hm₂, hr₁]
    · obtain ⟨hrec, hr₂⟩ := h'.failed j hj₁ (hm.resolve_left hm₁)
      exact ⟨hrec, by rw [hr₂, h.kept j hj hm₁]⟩

theorem knows (h : TreeFrame rec w w') {rec' : Option ℕ} (hw : w.Knows rec') : w'.Knows rec' :=
  fun i hi ↦ Nat.lt_of_lt_of_le (hw i hi) h.made

/-- The record of a subtest that is FAIL stays FAIL. -/
theorem subtestFails (h : TreeFrame rec w w') {rec' : Option ℕ} (hw : w.Knows rec')
    (hf : w.subtestFails rec' = true) : w'.subtestFails rec' = true := by
  cases rec' with
  | none => simp [World.subtestFails] at hf
  | some i =>
      have hi := hw i rfl
      have hf : (w.subtestRecords i).isFail = true := hf
      change (w'.subtestRecords i).isFail = true
      by_cases hm : .subtestFailed i ∈ w.emitted w'
      · rw [(h.failed i hi hm).2]
        rfl
      · rwa [h.kept i hi hm]

/-- It becomes FAIL only with the event that says so. -/
theorem subtestFails_iff (h : TreeFrame rec w w') {i : ℕ} (hi : i < w.subtestsMade) :
    w'.subtestFails (some i) = true ↔
      w.subtestFails (some i) = true ∨ .subtestFailed i ∈ w.emitted w' := by
  change (w'.subtestRecords i).isFail = true ↔ (w.subtestRecords i).isFail = true ∨ _
  by_cases hm : .subtestFailed i ∈ w.emitted w'
  · rw [(h.failed i hi hm).2]
    exact iff_of_true rfl (.inr hm)
  · rw [h.kept i hi hm, or_iff_left hm]

end TreeFrame

/-- `TreeFrame`, from a world that knows the current subtest. -/
def Framed (rec : Option ℕ) (w w' : World) : Prop := w.Knows rec → TreeFrame rec w w'

section Framed

variable {rec : Option ℕ}

instance : Std.Refl (Framed rec) where
  refl w _ := .refl rec w

instance : IsTrans World (Framed rec) where
  trans _ _ _ h h' hw := (h hw).trans (h' ((h hw).knows hw))

theorem framed_onRun {α : Type} {x : Exec α} : Within (Framed rec) (onRun x) := by
  intro w _
  rw [onRun]
  exact .of_eq rfl rfl rfl (fun _ ↦ rfl) (Nat.le_refl _) fun _ _ ↦ rfl

theorem treeFrame_addEvent {w : World} {e : Event} (hctx : ∀ ctx ∈ e.ctx, ctx = w.callstack)
    (hfail : ∀ j, e ≠ .subtestFailed j) : TreeFrame rec w (w.addEvent e) := by
  have hem := World.emitted_addEvent w e
  refine ⟨rfl, List.prefix_append _ _, ?_, rfl, fun _ ↦ rfl, Nat.le_refl _, fun _ _ _ ↦ rfl, ?_⟩
  · intro e' he ctx h
    obtain rfl : e' = e := by simpa [hem] using he
    exact (hctx ctx h) ▸ List.suffix_rfl
  · intro j _ hm
    rw [hem, List.mem_singleton] at hm
    exact absurd hm.symm (hfail j)

theorem framed_noteEvent {e : List Frame → Event} (hctx : ∀ c, ∀ ctx ∈ (e c).ctx, ctx = c)
    (hfail : ∀ c j, e c ≠ .subtestFailed j) : Within (Framed rec) (noteEvent e) :=
  .modify fun w _ ↦ treeFrame_addEvent (hctx w.callstack) (hfail w.callstack)

/-- What happens inside an activity, seen from outside. -/
theorem TreeFrame.leave {f : Frame} {w w' : World}
    (h : TreeFrame rec (w.setCallstack (f :: w.callstack)) w') :
    TreeFrame rec w (w'.setCallstack w.callstack) :=
  ⟨rfl, h.events, fun e he ctx hctx ↦ (List.suffix_cons _ _).trans (h.contexts e he ctx hctx),
    h.created, h.lastOutcome, h.made, h.kept, h.failed⟩

theorem framed_within {f : Frame} {x : Executor ExecutorReturn} (h : Within (Framed rec) x) :
    Within (Framed rec) (within f x) := by
  intro w hw
  have hx := h (w.setCallstack (f :: w.callstack)) hw
  rw [within]
  exact hx.leave

/-- `subtest_rec.outcome = FAIL`, and the event that says so. -/
theorem treeFrame_subtestFailed (w : World) (i : ℕ) :
    TreeFrame (some i) w ((w.setSubtestOutcome i .FAIL).addEvent (.subtestFailed i)) := by
  have hem : w.emitted ((w.setSubtestOutcome i .FAIL).addEvent (.subtestFailed i)) =
      [.subtestFailed i] := World.emitted_of_eq rfl
  have hother (j : ℕ) (hj : j ≠ i) :
      (w.setSubtestOutcome i .FAIL).subtestRecords j = w.subtestRecords j :=
    Function.update_of_ne hj _ _
  refine ⟨rfl, List.prefix_append _ _, ?_, rfl, fun _ ↦ rfl, Nat.le_refl _, fun j _ hn ↦ ?_, fun j _ hm ↦ ?_⟩
  · intro e he ctx hctx
    obtain rfl : e = .subtestFailed i := by simpa only [hem, List.mem_singleton] using he
    cases hctx
  · refine hother j fun hji ↦ hn ?_
    rw [hji, hem]
    exact List.mem_singleton_self _
  · obtain rfl : j = i := by
      simpa only [hem, List.mem_singleton, Event.subtestFailed.injEq] using hm
    exact ⟨rfl, Function.update_self _ _ _⟩

/-! ## The executors -/

theorem framed_conclude (o : PhaseExecutionOutcome) (unit : String) :
    Within (Framed rec) (conclude o unit rec) := by
  refine .ite (fun _ ↦ .bind (.modify fun w _ ↦ ?_) fun _ ↦ .pure) fun _ ↦ .ite (fun _ ↦ ?_) fun _ ↦ .pure
  · split
    · exact .refl rec w
    · rename_i hlast
      exact .of_eq rfl rfl rfl (fun h ↦ absurd h hlast) (Nat.le_refl _) fun _ _ ↦ rfl
  · cases rec with
    | none => exact .raise
    | some i => exact fun w _ ↦ treeFrame_subtestFailed w i

theorem framed_executeLeaf (n : PhaseNode) (unit : String) (records : TestRecord → ℕ)
    (skip : Option SubtestRecord → Exec Unit)
    (run : Option SubtestRecord → Exec PhaseExecutionOutcome) (inTeardown : Bool) :
    Within (Framed rec) (executeLeaf n unit records skip run rec inTeardown) :=
  .bind .gets fun _ ↦ .bind .gets fun _ ↦ .ite
    (fun _ ↦ .bind framed_onRun fun _ ↦ .bind .gets fun _ ↦ .bind framed_onRun fun _ ↦
      .bind .gets fun _ ↦ .bind (framed_noteEvent (by simp [Event.ctx]) (by simp)) fun _ ↦ .pure)
    fun _ ↦ .bind (framed_noteEvent (by simp [Event.ctx]) (by simp)) fun _ ↦
      .bind framed_onRun fun _ ↦ .bind (framed_noteEvent (by simp [Event.ctx]) (by simp)) fun _ ↦
      framed_conclude _ _

theorem framed_visiting (n : PhaseNode) (inTeardown : Bool) {x : Executor ExecutorReturn}
    (h : Within (Framed rec) x) : Within (Framed rec) (visiting n inTeardown x) :=
  .bind (framed_noteEvent (by simp [Event.ctx]) (by simp)) fun _ ↦ framed_within h

theorem framed_reaching (s : PhaseSequence) (inTeardown : Bool) {x : Executor ExecutorReturn}
    (h : Within (Framed rec) x) : Within (Framed rec) (reaching s rec inTeardown x) :=
  .bind .gets fun _ ↦ .bind (framed_noteEvent (by simp [Event.ctx]) (by simp)) fun _ ↦
    .bind (.catching h fun _ ↦
      .bind (framed_noteEvent (by simp [Event.ctx]) (by simp)) fun _ ↦ .raise) fun _ ↦
    .bind (framed_noteEvent (by simp [Event.ctx]) (by simp)) fun _ ↦ .pure

theorem framed_executePhaseBranch (s : PhaseSequence) (c : DiagnosisCondition) (inTeardown : Bool)
    {x : Executor ExecutorReturn} (h : Within (Framed rec) x) :
    Within (Framed rec) (executePhaseBranch s c rec inTeardown x) := by
  have hlost : Within (Framed rec) (Act.catching x fun e ↦ do
      onRun (noteStep .branchLost)
      Act.raise e) := .catching h fun _ ↦ .bind framed_onRun fun _ ↦ .raise
  refine .bind .gets fun _ ↦ .ite (fun _ ↦ .pure) fun _ ↦ .bind framed_onRun fun _ ↦ .bind .gets fun _ ↦
    .bind framed_onRun fun _ ↦ .bind .gets fun _ ↦ .bind (framed_noteEvent (by simp [Event.ctx]) (by simp)) fun _ ↦
    .ite (fun _ ↦ .bind (framed_within hlost) fun _ ↦ .bind framed_onRun fun _ ↦ .pure)
      fun _ ↦ .bind .pure fun _ ↦ .bind framed_onRun fun _ ↦ .pure

theorem framed_executePhaseGroup (g : PhaseGroup) (inTeardown : Bool)
    {setup main : Executor ExecutorReturn} {teardown : Bool → Executor ExecutorReturn}
    (hs : Within (Framed rec) setup) (hm : Within (Framed rec) main)
    (ht : ∀ b, Within (Framed rec) (teardown b)) :
    Within (Framed rec) (executePhaseGroup g rec inTeardown setup main teardown) :=
  .bind .gets fun _ ↦ .bind hs fun _ ↦ .ite (fun _ ↦ .pure) fun _ ↦ .bind .gets fun _ ↦
    .bind (framed_noteEvent (by simp [Event.ctx]) (by simp)) fun _ ↦ .bind hm fun _ ↦
    .bind (framed_noteEvent (by simp [Event.ctx]) (by simp)) fun _ ↦ .bind (ht _) fun _ ↦
    .bind (framed_noteEvent (by simp [Event.ctx]) (by simp)) fun _ ↦ .pure

end Framed

/-! ## Subtests -/

namespace World

/-- The world once the record of a subtest has been made. -/
def beginSubtest (s : PhaseSequence) (outerFailed : Bool) (w : World) : World :=
  { w.setSubtestRecord w.subtestsMade
      { name := s.name
        startTimeMillis := w.run.moment
        outcome := some (if outerFailed then .FAIL else .PASS) } with
    run := { w.run with moment := w.run.moment + 1 }
    subtestsMade := w.subtestsMade + 1 }

/-- The record of a subtest at its end. -/
def closedRecord (i : ℕ) (ret : ExecutorReturn) (w : World) : SubtestRecord :=
  { w.subtestRecords i with
    outcome := if ret = .TERMINAL then some .STOP else (w.subtestRecords i).outcome
    endTimeMillis := some w.run.moment }

/-- The world once the record of a subtest has been added to the test record. -/
def endSubtest (i : ℕ) (outerFailed : Bool) (ret : ExecutorReturn) (w : World) : World :=
  addEvent (.subtestRecorded i outerFailed ret (w.closedRecord i ret))
    { w.setSubtestRecord i (w.closedRecord i ret) with
      run := RunState.mapTestRecord (·.addSubtestRecord (w.closedRecord i ret))
        (RunState.addStep
          (.subtestCompleted (w.subtestRecords i).name (w.subtestRecords i).startTimeMillis)
          { w.run with moment := w.run.moment + 1 }) }

end World

theorem World.subtestFails_beginSubtest {s : PhaseSequence} {b : Bool} {outer : Option ℕ}
    {w : World} (hw : w.Knows outer) :
    (w.beginSubtest s b).subtestFails outer = w.subtestFails outer := by
  cases outer with
  | none => rfl
  | some i =>
      have hi : i ≠ w.subtestsMade := Nat.ne_of_lt (hw i rfl)
      simp [World.subtestFails, World.beginSubtest, World.setSubtestRecord, Function.update_of_ne hi]

theorem enterSubtest_apply {s : PhaseSequence} {outer : Option ℕ} {w : World}
    (hw : w.Knows outer) :
    enterSubtest s outer w =
      (.ok (w.subtestsMade, w.subtestFails outer), w.beginSubtest s (w.subtestFails outer)) := by
  have hfails := World.subtestFails_beginSubtest (s := s) (b := false) hw
  have hinherit : (w.beginSubtest s false).setSubtestOutcome w.subtestsMade .FAIL =
      w.beginSubtest s true := by
    simp [World.setSubtestOutcome, World.setSubtestRecord, World.beginSubtest]
  change (do
    let outerFailed ← Act.gets (·.subtestFails outer)
    if outerFailed then
      Act.modify (World.setSubtestOutcome w.subtestsMade .FAIL)
    pure (w.subtestsMade, outerFailed) : Executor (ℕ × Bool)) (w.beginSubtest s false) = _
  rw [bind_apply, gets_apply, andThen, hfails]
  cases w.subtestFails outer with
  | false => rfl
  | true => rw [← hinherit]; rfl

theorem leaveSubtest_apply (i : ℕ) (outerFailed : Bool) (ret : ExecutorReturn) (w : World) :
    leaveSubtest i outerFailed ret w = (.ok (), w.endSubtest i outerFailed ret) := by
  cases ret <;>
    simp [leaveSubtest, timeMillis, noteStep, onRun, callUser, noteEvent, World.setSubtestOutcome,
      World.setSubtestRecord, World.endSubtest, World.closedRecord, andThen, World.addEvent,
      RunState.addStep]

theorem wp_executeSubtest {s : PhaseSequence} {outer : Option ℕ}
    {sequence : Option ℕ → Executor ExecutorReturn} {Q : ExecutorReturn → World → Prop}
    {E : PyExc → World → Prop} {w : World} (hw : w.Knows outer) :
    wp (executeSubtest s outer sequence) Q E w =
      wp (sequence (some w.subtestsMade))
        (fun ret w' ↦ Q ret
          ((w'.setCallstack w.callstack).endSubtest w.subtestsMade (w.subtestFails outer) ret))
        (fun e w' ↦ E e (w'.setCallstack w.callstack))
        ((w.beginSubtest s (w.subtestFails outer)).setCallstack
          (.subtest w.subtestsMade :: w.callstack)) := by
  have hleave (ret : ExecutorReturn) (w' : World) :
      wp (leaveSubtest w.subtestsMade (w.subtestFails outer) ret) (fun _ ↦ Q ret) E w' =
        Q ret (w'.endSubtest w.subtestsMade (w.subtestFails outer) ret) := by
    rw [wp, leaveSubtest_apply]
  rw [executeSubtest, wp_bind, wp, enterSubtest_apply hw]
  simp only [wp_bind, wp_within, wp_pure, hleave]
  rfl

theorem knows_beginSubtest {s : PhaseSequence} {b : Bool} {c : List Frame} {w : World} :
    ((w.beginSubtest s b).setCallstack c).Knows (some w.subtestsMade) := by
  rintro i hi
  obtain rfl : w.subtestsMade = i := Option.some.inj hi
  exact Nat.lt_succ_self _

/-- What happens inside a subtest, seen from outside. -/
theorem TreeFrame.ofSubtest {rec : Option ℕ} {s : PhaseSequence} {b : Bool} {f : Frame}
    {w w' : World}
    (h : TreeFrame (some w.subtestsMade) ((w.beginSubtest s b).setCallstack (f :: w.callstack)) w') :
    TreeFrame rec w (w'.setCallstack w.callstack) := by
  have hem : w.emitted (w'.setCallstack w.callstack) =
      ((w.beginSubtest s b).setCallstack (f :: w.callstack)).emitted w' := rfl
  have hmade : w.subtestsMade + 1 ≤ w'.subtestsMade := h.made
  have hrecords (j : ℕ) (hj : j < w.subtestsMade) :
      (w.beginSubtest s b).subtestRecords j = w.subtestRecords j :=
    Function.update_of_ne (Nat.ne_of_lt hj) _ _
  refine ⟨rfl, h.events, fun e he ctx hctx ↦ ?_, h.created, h.lastOutcome, ?_, fun j hj hn ↦ ?_,
    fun j hj hm ↦ ?_⟩
  · exact (List.suffix_cons _ _).trans (h.contexts e (hem ▸ he) ctx hctx)
  · exact Nat.le_of_succ_le hmade
  · exact (h.kept j (Nat.lt_succ_of_lt hj) (hem ▸ hn)).trans (hrecords j hj)
  · have hself := (h.failed j (Nat.lt_succ_of_lt hj) (hem ▸ hm)).1
    exact absurd (Option.some.inj hself) (Nat.ne_of_gt hj)

/-- Closing a subtest whose record was made after `w`. -/
theorem TreeFrame.endSubtest {rec : Option ℕ} {w w' : World} {i : ℕ} {b : Bool}
    {ret : ExecutorReturn} (h : TreeFrame rec w w') (hi : w.subtestsMade ≤ i) :
    TreeFrame rec w (w'.endSubtest i b ret) := by
  have hem : w.emitted (w'.endSubtest i b ret) =
      w.emitted w' ++ [.subtestRecorded i b ret (w'.closedRecord i ret)] := by
    apply World.emitted_of_eq
    rw [← List.append_assoc, ← World.events_eq h.events]
    rfl
  have hrecords (j : ℕ) (hj : j < w.subtestsMade) :
      (w'.endSubtest i b ret).subtestRecords j = w'.subtestRecords j :=
    Function.update_of_ne (by omega) _ _
  refine ⟨h.callstack, h.events.trans (List.prefix_append _ _), fun e he ctx hctx ↦ ?_, h.created,
    h.lastOutcome, h.made, fun j hj hn ↦ ?_, fun j hj hm ↦ ?_⟩
  · rw [hem, List.mem_append, List.mem_singleton] at he
    rcases he with he | rfl
    · exact h.contexts e he ctx hctx
    · cases hctx
  · rw [hem, List.mem_append, not_or] at hn
    exact (hrecords j hj).trans (h.kept j hj hn.1)
  · have hm : .subtestFailed j ∈ w.emitted w' := by simpa [hem] using hm
    exact ⟨(h.failed j hj hm).1, (hrecords j hj).trans (h.failed j hj hm).2⟩

theorem framed_executeSubtest {rec : Option ℕ} (s : PhaseSequence)
    {sequence : Option ℕ → Executor ExecutorReturn}
    (h : ∀ rec, Within (Framed rec) (sequence rec)) :
    Within (Framed rec) (executeSubtest s rec sequence) := by
  intro w hw
  rw [← wp_same (P := TreeFrame rec w), wp_executeSubtest hw]
  refine ((h (some w.subtestsMade)).wp _).mono (fun ret w' hf ↦ ?_) fun e w' hf ↦ ?_
  · exact (TreeFrame.ofSubtest (hf knows_beginSubtest)).endSubtest (Nat.le_refl _)
  · exact TreeFrame.ofSubtest (hf knows_beginSubtest)

/-! ## The tree -/

section Tree

variable {env : Env} {exec : PhaseExecutor}

section Sequences

variable {rec : Option ℕ} {ns : List PhaseNode}
  (hns : ∀ n ∈ ns, ∀ rec inTeardown, Within (Framed rec) (executeNode env exec n rec inTeardown))

include hns

theorem framed_abortableSequence : Within (Framed rec) (executeAbortableSequence env exec ns rec) := by
  induction ns with
  | nil => exact .pure
  | cons n ns ih =>
      exact .bind framed_onRun fun _ ↦ .ite (fun _ ↦ .pure) fun _ ↦
        .bind framed_onRun fun _ ↦ .bind (hns n (List.mem_cons_self ..) _ _) fun _ ↦
        .ite (fun _ ↦ .pure) fun _ ↦ ih fun m hm ↦ hns m (List.mem_cons_of_mem _ hm)

theorem framed_teardownSequence (ret : ExecutorReturn) :
    Within (Framed rec) (executeTeardownSequence env exec ns rec ret) := by
  induction ns generalizing ret with
  | nil => exact .pure
  | cons n ns ih =>
      exact .bind framed_onRun fun _ ↦ .ite (fun _ ↦ .pure) fun _ ↦
        .bind (hns n (List.mem_cons_self ..) _ _) fun _ ↦
        ih (fun m hm ↦ hns m (List.mem_cons_of_mem _ hm)) _

end Sequences

theorem framed_part {rec : Option ℕ} {o : Option PhaseSequence} {inTeardown : Bool}
    (h : ∀ s ∈ o, Within (Framed rec) (executeSequence env exec s rec inTeardown)) :
    Within (Framed rec) (executePart env exec o rec inTeardown) := by
  cases o with
  | none => exact .pure
  | some s => exact framed_reaching _ _ (h s rfl)

/-- The execution of a node is a visit, and the one of a sequence a passage, with
nothing outside that the frame does not allow. -/
theorem framed_bodies :
    (∀ n rec inTeardown, ∃ x, executeNode env exec n rec inTeardown = visiting n inTeardown x ∧
      Within (Framed rec) x) ∧
      ∀ s rec inTeardown, ∃ x, executeSequence env exec s rec inTeardown = within (.sequence s) x ∧
        Within (Framed rec) x := by
  apply PhaseNode.tree_induction
  case phase =>
    intro p rec inTeardown
    exact ⟨_, rfl, framed_executeLeaf _ _ _ _ _ _⟩
  case checkpoint =>
    intro c rec inTeardown
    exact ⟨_, rfl, framed_executeLeaf _ _ _ _ _ _⟩
  case unhandled =>
    intro rec inTeardown
    exact ⟨_, rfl, .bind framed_onRun fun _ ↦ .pure⟩
  case sequence =>
    intro s hs rec inTeardown
    have hs (rec : Option ℕ) : Within (Framed rec) (executeSequence env exec s rec inTeardown) := by
      obtain ⟨x, hx, h⟩ := hs rec inTeardown
      exact hx ▸ framed_within h
    refine ⟨_, rfl, framed_reaching _ _ ?_⟩
    unfold executeSequenceNode
    cases s.kind with
    | plain => exact hs rec
    | subtest => exact framed_executeSubtest s hs
    | branch c => exact framed_executePhaseBranch s c inTeardown (hs rec)
  case group =>
    rintro ⟨setup, main, teardown, name⟩ hs hm ht rec inTeardown
    have hpart {o : Option PhaseSequence} (td : Bool) (h : ∀ s ∈ o, ∀ rec td, ∃ x,
        executeSequence env exec s rec td = within (.sequence s) x ∧ Within (Framed rec) x) :
        Within (Framed rec) (executePart env exec o rec td) := framed_part fun s hso ↦ by
      obtain ⟨x, hx, h⟩ := h s hso rec td
      exact hx ▸ framed_within h
    exact ⟨_, rfl, .bind framed_onRun fun _ ↦
      framed_executePhaseGroup _ _ (hpart _ hs) (hpart _ hm) fun _ ↦ hpart _ ht⟩
  case nodes =>
    intro kind name ns hns rec inTeardown
    have hns (n : PhaseNode) (hn : n ∈ ns) (rec : Option ℕ) (td : Bool) :
        Within (Framed rec) (executeNode env exec n rec td) := by
      obtain ⟨x, hx, h⟩ := hns n hn rec td
      exact hx ▸ framed_visiting _ _ h
    exact ⟨_, rfl, .ite
      (fun _ ↦ .bind framed_onRun fun _ ↦ .finally' (framed_teardownSequence hns _) framed_onRun)
      fun _ ↦ framed_abortableSequence hns⟩

theorem framed_tree :
    (∀ n rec inTeardown, Within (Framed rec) (executeNode env exec n rec inTeardown)) ∧
      ∀ s rec inTeardown, Within (Framed rec) (executeSequence env exec s rec inTeardown) := by
  refine ⟨fun n rec inTeardown ↦ ?_, fun s rec inTeardown ↦ ?_⟩
  · obtain ⟨x, hx, h⟩ := framed_bodies.1 n rec inTeardown
    exact hx ▸ framed_visiting _ _ h
  · obtain ⟨x, hx, h⟩ := framed_bodies.2 s rec inTeardown
    exact hx ▸ framed_within h

theorem framed_executePart {rec : Option ℕ} (o : Option PhaseSequence) {inTeardown : Bool} :
    Within (Framed rec) (executePart env exec o rec inTeardown) :=
  framed_part fun s _ ↦ framed_tree.2 s rec inTeardown

/-! ## Which contexts occur -/

theorem contexts_within {rec : Option ℕ} {f : Frame} {x : Executor ExecutorReturn}
    (h : Within (Framed rec) x) :
    Within (fun w w' ↦ w.Knows rec → ∀ e ∈ w.emitted w', ∀ ctx ∈ e.ctx, f :: w.callstack <:+ ctx)
      (within f x) := by
  intro w hw
  have hx := h (w.setCallstack (f :: w.callstack)) hw
  rw [within]
  exact hx.contexts

/-- The execution of a node says first that the node is visited, and what it
says of other nodes it says from inside. -/
theorem events_executeNode (n : PhaseNode) (rec : Option ℕ) (inTeardown : Bool) :
    Within (fun w w' ↦ w.Knows rec → ∃ l, w.emitted w' = .visited w.callstack n inTeardown :: l ∧
      ∀ e ∈ l, ∀ ctx ∈ e.ctx, .node inTeardown :: w.callstack <:+ ctx)
      (executeNode env exec n rec inTeardown) := by
  obtain ⟨x, hx, h⟩ := framed_bodies.1 n rec inTeardown
  intro w hw
  have hctx := contexts_within (f := .node inTeardown) h (w.addEvent (.visited w.callstack n inTeardown)) hw
  have hf := framed_within (f := .node inTeardown) h (w.addEvent (.visited w.callstack n inTeardown)) hw
  rw [hx]
  refine ⟨_, ?_, hctx⟩
  exact World.emitted_trans (List.prefix_append _ _) hf.events ▸ by rw [World.emitted_addEvent]; rfl

end Tree

end OpenHtf
