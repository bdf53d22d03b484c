import OpenHtf.ThreadRun

/-!
# What a call of `abort` does to a run

After `abort` has returned nothing begins outside the teardowns of the groups
that were entered before, unless the executor thread had decided on it before or
repeats a phase.  A first call of `abort` leaves the teardowns alone.
-/

set_option autoImplicit false

namespace OpenHtf

/-- The history of the two threads in a run of a test. -/
def World.history (w : World) : List ThreadEvent := w.run.sync.history

/-- A group with a phase in its main and one in its teardown. -/
def groupTest : Test where
  phaseSequence := .mk .plain none [.group (.mk none
    (some (.mk .plain none [.phase { id := 1, name := "measure" }]))
    (some (.mk .plain none [.phase { id := 2, name := "power_off" }])) none)]

/-- A whole call of `abort` comes in before the operation `n` of the executor thread. -/
def abortBefore (n : ℕ) : Env where
  schedule operation := if operation = n then 12 else 0

section Abortion

variable (env : Env) (test : Test) (abortCalls : ℕ)

/-- After a call of `abort` has returned, nothing is started and no group is entered
outside the teardown lock, when the executor thread had nothing pending outside it
at the return and repeats no phase there after it. -/
theorem noLateStart (h : Undisturbed (World.final env test abortCalls).history) :
    NoLateStart (World.final env test abortCalls).history :=
  ((final_stretch env test abortCalls).path.keeps (fun _ _ ↦ Sync.abortSettled_step)
    (Sync.abortSettled_initial abortCalls test.testStart.isSome)).starts h

/-- The phase of the main is killed and the one of the teardown is started. -/
theorem noLateStart_killed : Undisturbed (World.final (abortBefore 11) groupTest 1).history ∧
    NoLateStart (World.final (abortBefore 11) groupTest 1).history := by
  have h : Undisturbed (World.final (abortBefore 11) groupTest 1).history := by
    unfold Undisturbed
    decide +kernel
  exact ⟨h, noLateStart (abortBefore 11) groupTest 1 h⟩

/-- `abort` runs between the look at `_abort` and the start of the phase. -/
theorem not_noLateStart_pending : ¬NoLateStart (World.final (abortBefore 4) groupTest 1).history := by
  unfold NoLateStart
  decide +kernel

/-- While the executor thread is inside the teardown lock, a single call of `abort`
does not set `_stopping` and kills no phase thread, no check of the executor thread
finds `_stopping` set, and no phase thread that it joins was killed. -/
structure TeardownsSpared (history : List ThreadEvent) : Prop where
  notStopped : ∀ depth, .stoppingSet depth ∈ history → depth = 0
  notKilled : ∀ thread depth, .killed thread depth ∈ history → depth = 0
  notCancelled : ∀ depth, .stopChecked true depth ∈ history → depth = 0
  notTerminated : ∀ thread depth, .joined thread true depth ∈ history → depth = 0

theorem teardownsSpared (h : abortCalls ≤ 1) : TeardownsSpared (World.final env test abortCalls).history := by
  have hspared := (final_stretch env test abortCalls).path.keeps (fun _ _ ↦ Sync.teardownSpared_step)
    (Sync.teardownSpared_initial h test.testStart.isSome)
  have hzero (e : ThreadEvent) (he : e ∈ (World.final env test abortCalls).history) :
      e.outsideTeardown = true := hspared.history e he
  constructor
  · intro depth hmem
    simpa [ThreadEvent.outsideTeardown] using hzero _ hmem
  · intro thread depth hmem
    simpa [ThreadEvent.outsideTeardown] using hzero _ hmem
  · intro depth hmem
    simpa [ThreadEvent.outsideTeardown] using hzero _ hmem
  · intro thread depth hmem
    simpa [ThreadEvent.outsideTeardown] using hzero _ hmem

theorem teardownsSpared_killed : TeardownsSpared (World.final (abortBefore 11) groupTest 1).history :=
  teardownsSpared (abortBefore 11) groupTest 1 (by decide)

end Abortion

end OpenHtf
