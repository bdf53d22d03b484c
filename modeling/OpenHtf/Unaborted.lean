import OpenHtf.Assignment
import OpenHtf.PhaseFrame

/-!
# When nobody aborts

A phase, a checkpoint and their skips call nobody who aborts: when no call of
`abort` is under way or to come before, then none is after.
-/

set_option autoImplicit false

namespace OpenHtf

open Act

/-- When nobody aborts before, then nobody aborts after. -/
def Unaborted (s s' : RunState) : Prop := s.sync.NoAbort → s'.sync.NoAbort

instance : Std.Refl Unaborted where
  refl _ h := h

instance : IsTrans RunState Unaborted where
  trans _ _ _ h h' := fun hs ↦ h' (h hs)

section Unaborted

variable {env : Env}

theorem unaborted_of_sync {s s' : RunState} (h : s'.sync = s.sync) : Unaborted s s' := fun hs ↦ h ▸ hs

/-- An operation on the shared state that touches nothing of the aborting thread. -/
theorem unaborted_shared {α : Type} {op : Sync → α × Sync}
    (hop : ∀ s : Sync, (op s).2.abort = s.abort ∧ (op s).2.fullAbort = s.fullAbort ∧
      (op s).2.abortPc = s.abortPc ∧ (op s).2.abortCalls = s.abortCalls) : Within Unaborted (shared env op) := by
  intro s hs
  have h := Sync.stable_noAbort.interfere env.schedule hs
  obtain ⟨h₁, h₂, h₃, h₄⟩ := hop (s.sync.interfere env.schedule)
  exact ⟨h₁.trans h.abort, h₂.trans h.fullAbort, h₃.trans h.idle, h₄.trans h.calls⟩

theorem unaborted_modify {f : RunState → RunState} (h : ∀ s, (f s).sync = s.sync) :
    Within Unaborted (Act.modify f : Exec Unit) := fun s ↦ unaborted_of_sync (h s)

theorem unaborted_callUser {α : Type} (f : ℕ → α) : Within Unaborted (callUser f) :=
  fun _ ↦ unaborted_of_sync rfl

theorem unaborted_noteThread (b : Bool) : Within Unaborted (noteThread (Sync.setStartPending b)) :=
  fun _ hs ↦ Sync.stable_noAbort.setStartPending b hs

theorem unaborted_repeatPhase : Within Unaborted (noteThread Sync.repeatPhase) :=
  fun _ h ↦ ⟨h.abort, h.fullAbort, h.idle, h.calls⟩

theorem unaborted_enterPhase (p : PhaseDescriptor) : Within Unaborted (enterPhase env p) :=
  .bind (unaborted_shared fun _ ↦ ⟨rfl, rfl, rfl, rfl⟩) fun _ ↦ .ite (fun _ ↦ .raise) fun _ ↦
    .bind (unaborted_callUser _) fun _ ↦ .bind (unaborted_modify fun _ ↦ rfl) fun _ ↦
    unaborted_modify fun _ ↦ rfl

theorem unaborted_leavePhase : Within Unaborted (leavePhase env) :=
  .bind (.catching ((endFrame_finalizePhase env).weaken fun _ _ h ↦ unaborted_of_sync h.sync) fun _ ↦
      .bind (unaborted_modify fun _ ↦ rfl) fun _ ↦ .raise) fun _ ↦
    .bind (unaborted_modify fun _ ↦ rfl) fun _ ↦
    unaborted_shared fun _ ↦ ⟨rfl, rfl, rfl, rfl⟩

theorem unaborted_joinOrDie (p : PhaseDescriptor) (thread : PhaseThread) (rec : Option SubtestRecord) :
    Within Unaborted (joinOrDie env p thread rec) := by
  refine .bind (unaborted_callUser _) fun call ↦ .bind .gets fun provided ↦
    .bind (unaborted_modify fun _ ↦ rfl) fun _ ↦
    .bind (unaborted_shared fun _ ↦ ⟨rfl, rfl, rfl, rfl⟩) fun killed ↦ ?_
  split
  · exact .pure
  · exact .bind (unaborted_modify fun _ ↦ rfl) fun _ ↦ .pure

theorem unaborted_runPhaseOnce (p : PhaseDescriptor) (last : Bool) (rec : Option SubtestRecord) :
    Within Unaborted (runPhaseOnce env p last rec) := by
  have hmodify {f : RunState → RunState} (h : ∀ s, (f s).sync = s.sync) := unaborted_modify h
  refine .bind (unaborted_enterPhase p) fun _ ↦ .bind (hmodify fun _ ↦ rfl) fun _ ↦
    .bind (unaborted_shared fun _ ↦ ⟨rfl, rfl, rfl, rfl⟩) fun _ ↦
    .bind (unaborted_shared fun _ ↦ ⟨rfl, rfl, rfl, rfl⟩) fun _ ↦ .ite
    (fun _ ↦ .bind (unaborted_shared fun _ ↦ ⟨rfl, rfl, rfl, rfl⟩) fun _ ↦
      .bind (hmodify fun _ ↦ rfl) fun _ ↦ .bind unaborted_leavePhase fun _ ↦ .pure)
    fun _ ↦ .bind (unaborted_shared fun _ ↦ ⟨rfl, rfl, rfl, rfl⟩) fun _ ↦
      .bind (unaborted_shared fun _ ↦ ⟨rfl, rfl, rfl, rfl⟩) fun _ ↦
      .bind (unaborted_shared fun _ ↦ ⟨rfl, rfl, rfl, rfl⟩) fun _ ↦ .bind (unaborted_joinOrDie p _ rec) fun _ ↦
      .bind (hmodify fun _ ↦ rfl) fun _ ↦ .bind (unaborted_shared fun _ ↦ ⟨rfl, rfl, rfl, rfl⟩) fun _ ↦
      .bind unaborted_leavePhase fun _ ↦ .ite (fun _ ↦ .pure) fun _ ↦ .bind .gets fun r ↦ ?_
  cases r with
  | none => exact .raise
  | some r => exact .pure

theorem unaborted_executePhaseOnce (p : PhaseDescriptor) (last : Bool) (rec : Option SubtestRecord) :
    Within Unaborted (executePhaseOnce env p last rec) := by
  unfold executePhaseOnce
  cases p.options.runIf with
  | none => exact unaborted_runPhaseOnce p last rec
  | some runIf =>
      refine .bind (unaborted_callUser _) fun r ↦ ?_
      match r with
      | .error e =>
          exact .bind (unaborted_noteThread false) fun _ ↦ .bind (unaborted_modify fun _ ↦ rfl) fun _ ↦
            .ite (fun _ ↦ .pure) fun _ ↦ .raise
      | .ok false => exact .bind (unaborted_noteThread false) fun _ ↦ .pure
      | .ok true => exact unaborted_runPhaseOnce p last rec

theorem unaborted_shouldRepeat (p : PhaseDescriptor) (o : PhaseExecutionOutcome) (last : Bool) :
    Within Unaborted (shouldRepeat p o last) :=
  .ite (fun _ ↦ .pure) fun _ ↦ .ite (fun _ ↦ .pure) fun _ ↦ .ite (fun _ ↦ .pure) fun _ ↦
    .ite (fun _ ↦ within_lastRepeatFailed (fun _ ↦ unaborted_modify fun _ ↦ rfl)
      (fun _ _ _ _ ↦ unaborted_of_sync rfl) last) fun _ ↦ .pure

theorem unaborted_executePhase (p : PhaseDescriptor) (rec : Option SubtestRecord) :
    Within Unaborted (executePhase env p rec) := by
  have hround (last : Bool) {next : Exec PhaseExecutionOutcome} (hn : Within Unaborted next) :
      Within Unaborted (executePhaseRound env p rec last next) :=
    .bind (unaborted_shared fun _ ↦ ⟨rfl, rfl, rfl, rfl⟩) fun _ ↦ .ite (fun _ ↦ .pure) fun _ ↦
      .bind (unaborted_executePhaseOnce p last rec) fun o ↦ .bind (unaborted_shouldRepeat p o last) fun _ ↦
      .ite (fun _ ↦ .bind (unaborted_repeatPhase) fun _ ↦ hn) fun _ ↦ .pure
  have hloop (repeatsLeft : ℕ) : Within Unaborted (executePhaseLoop env p rec repeatsLeft) := by
    induction repeatsLeft with
    | zero => exact hround true .pure
    | succ repeatsLeft ih => exact hround false ih
  exact hloop _

theorem unaborted_skipPhase (p : PhaseDescriptor) (rec : Option SubtestRecord) :
    Within Unaborted (skipPhase env p rec) :=
  .bind (unaborted_enterPhase p) fun _ ↦ .bind (unaborted_modify fun _ ↦ rfl) fun _ ↦ unaborted_leavePhase

theorem unaborted_stopOnFirstFailure (o : PhaseExecutionOutcome) :
    Within Unaborted (TestExecutor.stopOnFirstFailure env o) := by
  refine .ite (fun _ ↦ .bind .gets fun phases ↦ .bind (unaborted_modify fun _ ↦ rfl) fun _ ↦ ?_) fun _ ↦ .pure
  cases phases.getLast? with
  | none => exact .raise
  | some last => exact .pure

theorem unaborted_evaluateCheckpoint (c : Checkpoint) (rec : Option SubtestRecord) :
    Within Unaborted (evaluateCheckpoint c rec) :=
  within_evaluateCheckpoint unaborted_callUser (fun _ _ ↦ unaborted_modify fun _ ↦ rfl)
    (fun _ ↦ unaborted_modify fun _ ↦ rfl) c rec

theorem unaborted_skipCheckpoint (c : Checkpoint) (rec : Option SubtestRecord) :
    Within Unaborted (skipCheckpoint c rec) :=
  within_skipCheckpoint unaborted_callUser (fun _ _ ↦ unaborted_modify fun _ ↦ rfl)
    (fun _ ↦ unaborted_modify fun _ ↦ rfl) c rec

end Unaborted

end OpenHtf
