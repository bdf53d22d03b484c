import Mathlib.Logic.Relation
import OpenHtf.Sync

/-!
# The protocol between the executor thread and `abort`

`ThreadStep` says what the two threads may do to the shared state: any step of
`abort`, and each operation of the executor thread under the condition under
which the executor uses it.  What always holds is proved here, for every path of
such steps; that the executor keeps to the conditions is proved of its code.
-/

set_option autoImplicit false

namespace OpenHtf

namespace Sync

inductive ThreadStep : Sync → Sync → Prop
  | abort (s : Sync) : ThreadStep s s.abortStep
  | count (s : Sync) (n : ℕ) : ThreadStep s { s with operations := n }
  | setPhaseExec (s : Sync) : ThreadStep s s.setPhaseExec.2
  | checkStopping (s : Sync) : ThreadStep s s.stoppingIsSet.2
  | setPending (s : Sync) (b : Bool) (h : b = true → s.abort = false) :
      ThreadStep s (s.setStartPending b)
  | repeatPhase (s : Sync) : ThreadStep s s.repeatPhase
  | enterTeardown (s : Sync) (hout : s.aborterOutside = true) (h : s.currentPhaseThread = none) :
      ThreadStep s s.takeTeardownPhasesLock
  | leaveTeardown (s : Sync) (h : s.currentPhaseThread = none) :
      ThreadStep s s.releaseTeardownPhasesLock.2
  | lockPhaseThread (s : Sync) : ThreadStep s s.acquireCurrentPhaseThreadLock.2
  | unlockPhaseThread (s : Sync) : ThreadStep s s.releaseCurrentPhaseThreadLock.2
  | start (s : Sync) (h : 0 < s.depth ∨ s.startPending = true) : ThreadStep s s.startPhaseThread.2
  | enterGroup (s : Sync) (h : 0 < s.depth ∨ s.startPending = true) : ThreadStep s s.enterGroup.2
  | setThread (s : Sync) (t : PhaseThread) (h : t.depth = s.depth) :
      ThreadStep s (s.setCurrentPhaseThread (some t)).2
  | clearThread (s : Sync) : ThreadStep s (s.setCurrentPhaseThread none).2
  | join (s : Sync) (t : PhaseThread) (h : s.currentPhaseThread = some t) :
      ThreadStep s (s.joinPhaseThread t).2
  | enterRunning (s : Sync) : ThreadStep s s.enterRunningPhase.2
  | leaveRunning (s : Sync) : ThreadStep s s.leaveRunningPhase.2

/-- A path of steps of the two threads. -/
abbrev Path : Sync → Sync → Prop := Relation.ReflTransGen ThreadStep

theorem Path.keeps {I : Sync → Prop} (h : ∀ s s', ThreadStep s s' → I s → I s') {s s' : Sync}
    (hp : Path s s') (hs : I s) : I s' := by
  induction hp with
  | refl => exact hs
  | tail _ hstep ih => exact h _ _ hstep ih

/-! ## A step of `abort` -/

/-- What a step of `abort` does, and when. -/
inductive AbortStepped (s : Sync) : Sync → Prop
  | waits : AbortStepped s s
  | calls (n : ℕ) (hpc : s.abortPc = .idle) (hn : s.abortCalls = n + 1) :
      AbortStepped s { s with abortCalls := n, abortPc := .checkAbort }
  | checks (hpc : s.abortPc = .checkAbort) :
      AbortStepped s { s with abortPc := if s.abort then .setFullAbort else .setAbort }
  | setsFullAbort (hpc : s.abortPc = .setFullAbort) :
      AbortStepped s { s with fullAbort := true, abortPc := .readPhaseExec true }
  | setsAbort (hpc : s.abortPc = .setAbort) :
      AbortStepped s { s with abort := true, abortPc := .readPhaseExec false }
  | goesOn (force : Bool) (hpc : s.abortPc = .readPhaseExec force) :
      AbortStepped s { s with abortPc := if force then .setStopping true else .acquireTeardownLock }
  | returns (hpc : s.abortPc = .acquireTeardownLock ∨ ∃ force, s.abortPc = .readPhaseExec force) :
      AbortStepped s s.abortReturn
  | acquires (l : ReentrantLock Thread) (hpc : s.abortPc = .acquireTeardownLock)
      (hl : s.teardownPhasesLock.tryAcquire .aborter = some l) :
      AbortStepped s { s with teardownPhasesLock := l, abortPc := .setStopping false }
  | setsStopping (force : Bool) (hpc : s.abortPc = .setStopping force) :
      AbortStepped s
        (record (.stoppingSet s.depth) { s with stopping := true, abortPc := .readPhaseThread force })
  | findsNone (force : Bool) (hpc : s.abortPc = .readPhaseThread force) :
      AbortStepped s { s with abortPc := .resetStop force }
  | findsThread (t : PhaseThread) (force : Bool) (hpc : s.abortPc = .readPhaseThread force)
      (ht : s.currentPhaseThread = some t) : AbortStepped s { s with abortPc := .kill t force }
  | kills (t : PhaseThread) (force : Bool) (hpc : s.abortPc = .kill t force) :
      AbortStepped s (record (.killed t s.depth)
        { s with killedThreads := t :: s.killedThreads, abortPc := .stopRunningPhase force })
  | stopsPhase (force : Bool) (hpc : s.abortPc = .stopRunningPhase force) :
      AbortStepped s { s with runningPhaseState := false, abortPc := .resetStop force }
  | resetsForced (hpc : s.abortPc = .resetStop true) : AbortStepped s (abortReturn { s with stopping := false })
  | resets (hpc : s.abortPc = .resetStop false) :
      AbortStepped s { s with stopping := false, abortPc := .releaseTeardownLock }
  | releases (hpc : s.abortPc = .releaseTeardownLock) :
      AbortStepped s
        (abortReturn { s with teardownPhasesLock := s.teardownPhasesLock.release .aborter })

theorem abortStepped (s : Sync) : AbortStepped s s.abortStep := by
  unfold abortStep
  split
  · rename_i hpc
    split
    · exact .waits
    · exact .calls _ hpc ‹_›
  · exact .checks ‹_›
  · exact .setsFullAbort ‹_›
  · exact .setsAbort ‹_›
  · rename_i force hpc
    split
    · exact .goesOn force hpc
    · exact .returns (.inr ⟨force, hpc⟩)
  · rename_i hpc
    split
    · exact .acquires _ hpc ‹_›
    · exact .returns (.inl hpc)
  · exact .setsStopping _ ‹_›
  · rename_i force hpc
    split
    · exact .waits
    · split
      · exact .findsNone force hpc
      · exact .findsThread _ force hpc ‹_›
  · exact .kills _ _ ‹_›
  · exact .stopsPhase _ ‹_›
  · rename_i force hpc
    cases force with
    | false => exact .resets hpc
    | true => exact .resetsForced hpc
  · exact .releases ‹_›

/-! ## What a step of `abort` leaves to the executor thread -/

/-- The executor thread's view of the shared state is the same, but for the
flags that only `abort` sets and the phase that only `abort` stops. -/
structure SameView (s s' : Sync) : Prop where
  depth : s'.depth = s.depth
  currentPhaseThread : s'.currentPhaseThread = s.currentPhaseThread
  currentPhaseThreadLock : s'.currentPhaseThreadLock = s.currentPhaseThreadLock
  startPending : s'.startPending = s.startPending
  abort : s.abort = true → s'.abort = true
  runningPhaseState : s.runningPhaseState = false → s'.runningPhaseState = false

instance : Std.Refl SameView where
  refl _ := ⟨rfl, rfl, rfl, rfl, id, id⟩

instance : IsTrans Sync SameView where
  trans _ _ _ h h' :=
    ⟨h'.depth.trans h.depth, h'.currentPhaseThread.trans h.currentPhaseThread,
      h'.currentPhaseThreadLock.trans h.currentPhaseThreadLock,
      h'.startPending.trans h.startPending, h'.abort ∘ h.abort,
      h'.runningPhaseState ∘ h.runningPhaseState⟩

theorem sameView_abortStep (s : Sync) : SameView s s.abortStep := by
  have hstep := abortStepped s
  generalize s.abortStep = s' at hstep ⊢
  cases hstep with
  | waits => exact Std.Refl.refl s
  | setsAbort => exact ⟨rfl, rfl, rfl, rfl, fun _ ↦ rfl, id⟩
  | acquires l _ hl =>
      exact ⟨ReentrantLock.depth_tryAcquire_of_ne hl (by decide), rfl, rfl, rfl, id, id⟩
  | releases => exact ⟨ReentrantLock.depth_release_of_ne (by decide), rfl, rfl, rfl, id, id⟩
  | stopsPhase => exact ⟨rfl, rfl, rfl, rfl, id, fun _ ↦ rfl⟩
  | calls | checks | setsFullAbort | goesOn | returns | setsStopping | findsNone | findsThread | kills
  | resets | resetsForced => exact ⟨rfl, rfl, rfl, rfl, id, id⟩

theorem sameView_iterate (n : ℕ) (s : Sync) : SameView s (abortStep^[n] s) :=
  iterate_within sameView_abortStep n s

theorem sameView_interfere (schedule : ℕ → ℕ) (s : Sync) : SameView s (s.interfere schedule) := by
  have h := sameView_iterate (schedule s.operations) s
  exact ⟨h.depth, h.currentPhaseThread, h.currentPhaseThreadLock, h.startPending, h.abort,
    h.runningPhaseState⟩

theorem path_iterate (n : ℕ) (s : Sync) : Path s (abortStep^[n] s) :=
  iterate_keeps (I := Path s) (fun t h ↦ h.tail (.abort t)) n .refl

theorem path_interfere (schedule : ℕ → ℕ) (s : Sync) : Path s (s.interfere schedule) :=
  (path_iterate _ s).tail (.count _ _)

/-! ## The section of `abort` -/

end Sync

namespace AbortPc

/-- Inside `_teardown_phases_lock`. -/
def inTeardownLock : AbortPc → Bool
  | setStopping false | readPhaseThread false | kill _ false | stopRunningPhase false
  | resetStop false | releaseTeardownLock => true
  | _ => false

/-- Between `_stopping.set()` and `_stopping.clear()`, without `force`. -/
def inStop : AbortPc → Bool
  | readPhaseThread false | kill _ false | stopRunningPhase false | resetStop false => true
  | _ => false

/-- After `_abort.set()`. -/
def afterSet : AbortPc → Bool
  | idle | checkAbort | setAbort => false
  | _ => true

/-- In a call that found `_abort` set. -/
def forced : AbortPc → Bool
  | setFullAbort => true
  | readPhaseExec force | setStopping force | readPhaseThread force | kill _ force
  | stopRunningPhase force | resetStop force => force
  | _ => false

/-- How many steps of its section are left to the aborting thread. -/
def stepsLeft : AbortPc → ℕ
  | setStopping false => 6
  | readPhaseThread false => 5
  | kill _ false => 4
  | stopRunningPhase false => 3
  | resetStop false => 2
  | releaseTeardownLock => 1
  | _ => 0

theorem inTeardownLock_of_inStop {pc : AbortPc} (h : pc.inStop = true) : pc.inTeardownLock = true := by
  cases pc with
  | readPhaseThread force | kill _ force | stopRunningPhase force | resetStop force =>
      cases force <;> simp_all [inStop, inTeardownLock]
  | _ => simp [inStop] at h

end AbortPc

namespace Sync

/-- The aborting thread holds the teardown lock in its section and only there. -/
def LockInv (s : Sync) : Prop :=
  s.teardownPhasesLock.depth .aborter = if s.abortPc.inTeardownLock then 1 else 0

theorem LockInv.depth_eq_zero {s : Sync} (h : LockInv s) (hpc : s.abortPc.inTeardownLock = true) :
    s.depth = 0 := by
  have hd : s.teardownPhasesLock.depth .aborter = 1 := by simpa [LockInv, hpc] using h
  exact ReentrantLock.depth_eq_zero_of_ne (t := .aborter) (by omega) (by decide)

theorem LockInv.same {s s' : Sync} (h : LockInv s) (hlock : s'.teardownPhasesLock = s.teardownPhasesLock)
    (hpc : s'.abortPc.inTeardownLock = s.abortPc.inTeardownLock) : LockInv s' := by
  rw [LockInv, hlock, hpc]
  exact h

theorem lockInv_abortStep {s : Sync} (h : LockInv s) : LockInv s.abortStep := by
  have hstep := abortStepped s
  generalize s.abortStep = s' at hstep ⊢
  cases hstep with
  | waits => exact h
  | calls n hpc | setsFullAbort hpc | setsAbort hpc => exact h.same rfl (by rw [hpc]; rfl)
  | checks hpc =>
      refine h.same rfl ?_
      rw [hpc]
      cases s.abort <;> rfl
  | returns hpc =>
      refine h.same rfl ?_
      obtain hpc | ⟨force, hpc⟩ := hpc <;> rw [hpc] <;> rfl
  | acquires l hpc hl =>
      have hd : s.teardownPhasesLock.depth .aborter = 0 := by
        simpa [LockInv, hpc, AbortPc.inTeardownLock] using h
      have hl' := ReentrantLock.depth_tryAcquire hl
      simp [LockInv, AbortPc.inTeardownLock, hl', hd]
  | goesOn force hpc | setsStopping force hpc | findsNone force hpc | findsThread t force hpc
  | kills t force hpc | stopsPhase force hpc =>
      refine h.same rfl ?_
      rw [hpc]
      cases force <;> rfl
  | resetsForced hpc | resets hpc => exact h.same rfl (by rw [hpc]; rfl)
  | releases hpc =>
      have hd : s.teardownPhasesLock.depth .aborter = 1 := by
        simpa [LockInv, hpc, AbortPc.inTeardownLock] using h
      simp [LockInv, abortReturn, record, AbortPc.inTeardownLock, hd]

/-- Operations of the executor thread on the lock do not move the other one. -/
theorem depth_take {s : Sync} :
    s.takeTeardownPhasesLock.teardownPhasesLock.depth .aborter =
      s.teardownPhasesLock.depth .aborter := by
  cases hl : s.teardownPhasesLock.tryAcquire .executor with
  | none => simp [takeTeardownPhasesLock, hl]
  | some l =>
      simpa [takeTeardownPhasesLock, hl] using
        ReentrantLock.depth_tryAcquire_of_ne hl (u := .aborter) (by decide)

theorem lockInv_step {s s' : Sync} (hstep : ThreadStep s s') (h : LockInv s) : LockInv s' := by
  cases hstep with
  | abort => exact lockInv_abortStep h
  | enterTeardown => exact depth_take.trans h
  | leaveTeardown => exact (ReentrantLock.depth_release_of_ne (by decide)).trans h
  | _ => exact h

/-- Waiting for the teardown lock ends: the aborting thread leaves its section
by itself when the executor thread does not hold the lock of the phase thread. -/
theorem aborterOutside_wait {s : Sync} (h : LockInv s) (hl : s.currentPhaseThreadLock = false) :
    (runUntil aborterOutside abortStep 6 s).aborterOutside = true := by
  refine done_runUntil (I := fun s ↦ LockInv s ∧ s.currentPhaseThreadLock = false)
    (m := fun s ↦ s.abortPc.stepsLeft) ?_ ?_ 6 ⟨h, hl⟩ ?_
  · rintro s ⟨h, -⟩ hleft
    have hpc : s.abortPc.inTeardownLock = false := by
      cases hpc : s.abortPc with
      | setStopping force | readPhaseThread force | kill t force | stopRunningPhase force
      | resetStop force => cases force <;> simp_all [AbortPc.stepsLeft, AbortPc.inTeardownLock]
      | _ => simp_all [AbortPc.stepsLeft, AbortPc.inTeardownLock]
    simpa [aborterOutside, LockInv, hpc] using h
  · rintro s ⟨h, hl⟩ hout
    refine ⟨⟨lockInv_abortStep h, (sameView_abortStep s).currentPhaseThreadLock.trans hl⟩, ?_⟩
    have hpc : s.abortPc.inTeardownLock = true := by
      by_contra hne
      simp_all [aborterOutside, LockInv]
    cases hpc' : s.abortPc with
    | readPhaseThread force =>
        cases force <;> cases ht : s.currentPhaseThread <;>
          simp_all [abortStep, AbortPc.stepsLeft, AbortPc.inTeardownLock]
    | setStopping force | kill t force | stopRunningPhase force | resetStop force =>
        cases force <;> simp_all [abortStep, record, AbortPc.stepsLeft, AbortPc.inTeardownLock]
    | releaseTeardownLock =>
        simp [abortStep, hpc', abortReturn, record, AbortPc.stepsLeft]
    | _ => simp_all [AbortPc.inTeardownLock]
  · cases hpc : s.abortPc with
    | setStopping force | readPhaseThread force | kill t force | stopRunningPhase force
    | resetStop force => cases force <;> simp [AbortPc.stepsLeft]
    | _ => simp [AbortPc.stepsLeft]

/-- The executor thread is one level deeper in the lock once it has acquired it. -/
theorem depth_takeTeardownPhasesLock {s : Sync} (hout : s.aborterOutside = true) :
    s.takeTeardownPhasesLock.depth = s.depth + 1 := by
  have hzero : s.teardownPhasesLock.depth .aborter = 0 := by simpa [aborterOutside] using hout
  cases hl : s.teardownPhasesLock.tryAcquire .executor with
  | some l => simpa [takeTeardownPhasesLock, depth, hl] using ReentrantLock.depth_tryAcquire hl
  | none =>
      obtain ⟨u, hu, hpos⟩ := ReentrantLock.tryAcquire_eq_none_iff.mp hl
      cases u with
      | executor => exact absurd rfl hu
      | aborter => omega

theorem depth_releaseTeardownPhasesLock (s : Sync) :
    s.releaseTeardownPhasesLock.2.depth = s.depth - 1 := by
  simp [releaseTeardownPhasesLock, depth]

/-! ## What has been done by `abort` was preceded by `_abort.set()` -/

structure AbortSeen (s : Sync) : Prop where
  stopping : s.stopping = true → s.abort = true
  killed : s.killedThreads ≠ [] → s.abort = true
  full : s.fullAbort = true → s.abort = true
  pc : s.abortPc.afterSet = true → s.abort = true

theorem abortSeen_abortStep {s : Sync} (h : AbortSeen s) : AbortSeen s.abortStep := by
  have hstep := abortStepped s
  generalize s.abortStep = s' at hstep ⊢
  cases hstep with
  | waits => exact h
  | calls n hpc => exact ⟨h.stopping, h.killed, h.full, nofun⟩
  | checks hpc =>
      refine ⟨h.stopping, h.killed, h.full, fun hset ↦ ?_⟩
      by_contra ha
      simp [ha, AbortPc.afterSet] at hset
  | setsAbort hpc => exact ⟨fun _ ↦ rfl, fun _ ↦ rfl, fun _ ↦ rfl, fun _ ↦ rfl⟩
  | returns hpc => exact ⟨h.stopping, h.killed, h.full, nofun⟩
  | setsFullAbort hpc | goesOn force hpc | acquires l hpc | setsStopping force hpc | findsNone force hpc
  | findsThread t force hpc | kills t force hpc | stopsPhase force hpc | resetsForced hpc | resets hpc
  | releases hpc =>
      have ha : s.abort = true := h.pc (by rw [hpc]; rfl)
      exact ⟨fun _ ↦ ha, fun _ ↦ ha, fun _ ↦ ha, fun _ ↦ ha⟩

theorem abortSeen_step {s s' : Sync} (hstep : ThreadStep s s') (h : AbortSeen s) :
    AbortSeen s' := by
  cases hstep with
  | abort => exact abortSeen_abortStep h
  | _ => exact ⟨h.stopping, h.killed, h.full, h.pc⟩

theorem abort_step {s s' : Sync} (hstep : ThreadStep s s') (h : s.abort = true) :
    s'.abort = true := by
  cases hstep with
  | abort => exact (sameView_abortStep s).abort h
  | _ => exact h

/-! ## A single call of `abort` -/

/-- At most one call of `abort` in all: it never finds `_abort` set. -/
structure OneAbort (s : Sync) : Prop where
  fullAbort : s.fullAbort = false
  forced : s.abortPc.forced = false
  calls : s.abortCalls ≤ 1
  under_way : s.abortPc ≠ .idle → s.abortCalls = 0
  done : s.abort = true → s.abortCalls = 0
  check : s.abortPc = .checkAbort → s.abort = false

theorem OneAbort.force_eq {s : Sync} (h : OneAbort s) {pc : AbortPc} (hpc : s.abortPc = pc) :
    pc.forced = false := hpc ▸ h.forced

/-- A step inside a call. -/
theorem OneAbort.inside {s s' : Sync} (h : OneAbort s) (hpc : s.abortPc ≠ .idle)
    (hforced : s'.abortPc.forced = false) (hcheck : s'.abortPc ≠ .checkAbort)
    (hfull : s'.fullAbort = s.fullAbort) (hcalls : s'.abortCalls = s.abortCalls) : OneAbort s' := by
  have hzero : s'.abortCalls = 0 := hcalls.trans (h.under_way hpc)
  exact ⟨hfull.trans h.fullAbort, hforced, by omega, fun _ ↦ hzero, fun _ ↦ hzero, fun hc ↦ absurd hc hcheck⟩

theorem oneAbort_abortStep {s : Sync} (h : OneAbort s) : OneAbort s.abortStep := by
  have hstep := abortStepped s
  generalize s.abortStep = s' at hstep ⊢
  cases hstep with
  | waits => exact h
  | calls n hpc hn =>
      have hone := h.calls
      have hzero : n = 0 := by omega
      have ha : s.abort = false := by
        by_contra ha
        have hnone := h.done (by simpa using ha)
        omega
      exact ⟨h.fullAbort, rfl, hzero ▸ Nat.zero_le 1, fun _ ↦ hzero, fun _ ↦ hzero, fun _ ↦ ha⟩
  | checks hpc =>
      have ha := h.check hpc
      refine h.inside (by rw [hpc]; nofun) ?_ ?_ rfl rfl <;> simp [ha, AbortPc.forced]
  | setsFullAbort hpc => cases h.force_eq hpc
  | goesOn force hpc =>
      obtain rfl : force = false := h.force_eq hpc
      exact h.inside (by rw [hpc]; nofun) rfl nofun rfl rfl
  | returns hpc =>
      refine h.inside ?_ rfl nofun rfl rfl
      obtain hpc | ⟨force, hpc⟩ := hpc <;> rw [hpc] <;> nofun
  | setsStopping force hpc | findsNone force hpc | findsThread t force hpc | kills t force hpc
  | stopsPhase force hpc =>
      have hforce : force = false := h.force_eq hpc
      exact h.inside (by rw [hpc]; nofun) hforce nofun rfl rfl
  | setsAbort hpc | acquires l hpc | resetsForced hpc | resets hpc | releases hpc =>
      exact h.inside (by rw [hpc]; nofun) rfl nofun rfl rfl

theorem oneAbort_step {s s' : Sync} (hstep : ThreadStep s s') (h : OneAbort s) : OneAbort s' := by
  cases hstep with
  | abort => exact oneAbort_abortStep h
  | _ => exact ⟨h.fullAbort, h.forced, h.calls, h.under_way, h.done, h.check⟩

end Sync

/-! ## A single call of `abort` and the teardowns -/

/-- `abort` acts, and its acts are seen, only while the executor thread is
outside the teardown lock. -/
def ThreadEvent.outsideTeardown : ThreadEvent → Bool
  | .stoppingSet depth | .killed _ depth | .stopChecked true depth | .joined _ true depth =>
      depth == 0
  | _ => true

namespace Sync

structure TeardownSpared (s : Sync) : Prop where
  lock : LockInv s
  one : OneAbort s
  stopping : s.stopping = true → s.abortPc.inStop = true
  killed : ∀ t ∈ s.killedThreads, t.depth = 0
  chosen : ∀ t force, s.abortPc = .kill t force → t.depth = 0
  current : ∀ t, s.currentPhaseThread = some t → t.depth = s.depth
  history : ∀ e ∈ s.history, e.outsideTeardown = true

/-- While `stop` is under way, the executor thread is outside the teardown lock. -/
theorem TeardownSpared.depth_of_stopping {s : Sync} (h : TeardownSpared s)
    (hstop : s.stopping = true) : s.depth = 0 :=
  h.lock.depth_eq_zero (AbortPc.inTeardownLock_of_inStop (h.stopping hstop))

theorem teardownSpared_abortStep {s : Sync} (h : TeardownSpared s) :
    TeardownSpared s.abortStep := by
  have hview := sameView_abortStep s
  have hcurrent : ∀ t, s.abortStep.currentPhaseThread = some t → t.depth = s.abortStep.depth :=
    fun t ht ↦ (h.current t (hview.currentPhaseThread ▸ ht)).trans hview.depth.symm
  suffices hrest : (s.abortStep.stopping = true → s.abortStep.abortPc.inStop = true) ∧
      (∀ t ∈ s.abortStep.killedThreads, t.depth = 0) ∧
      (∀ t force, s.abortStep.abortPc = .kill t force → t.depth = 0) ∧
      ∀ e ∈ s.abortStep.history, e.outsideTeardown = true from
    ⟨lockInv_abortStep h.lock, oneAbort_abortStep h.one, hrest.1, hrest.2.1, hrest.2.2.1, hcurrent,
      hrest.2.2.2⟩
  clear hcurrent hview
  have hstep := abortStepped s
  generalize s.abortStep = s' at hstep ⊢
  -- Where `_stopping` is not set and nothing is recorded, there is nothing to show.
  have hquiet (hpc : s.abortPc.inStop = false) : s.stopping = true → s'.abortPc.inStop = true := fun hs ↦ by
    rw [h.stopping hs] at hpc
    cases hpc
  have hhistory {e : ThreadEvent} (he : e.outsideTeardown = true) :
      ∀ e' ∈ s.history ++ [e], e'.outsideTeardown = true :=
    List.forall_mem_append.mpr ⟨h.history, List.forall_mem_singleton.mpr he⟩
  cases hstep with
  | waits => exact ⟨h.stopping, h.killed, h.chosen, h.history⟩
  | calls n hpc | setsAbort hpc => exact ⟨hquiet (by rw [hpc]; rfl), h.killed, nofun, h.history⟩
  | checks hpc =>
      refine ⟨hquiet (by rw [hpc]; rfl), h.killed, ?_, h.history⟩
      cases s.abort <;> nofun
  | setsFullAbort hpc => cases h.one.force_eq hpc
  | goesOn force hpc =>
      refine ⟨hquiet (by rw [hpc]; rfl), h.killed, ?_, h.history⟩
      cases force <;> nofun
  | returns hpc =>
      refine ⟨hquiet ?_, h.killed, nofun, hhistory rfl⟩
      obtain hpc | ⟨force, hpc⟩ := hpc <;> rw [hpc] <;> rfl
  | acquires l hpc => exact ⟨hquiet (by rw [hpc]; rfl), h.killed, nofun, h.history⟩
  | setsStopping force hpc =>
      obtain rfl : force = false := h.one.force_eq hpc
      have hzero : s.depth = 0 := h.lock.depth_eq_zero (by rw [hpc]; rfl)
      exact ⟨fun _ ↦ rfl, h.killed, nofun, hhistory (by rw [hzero]; rfl)⟩
  | findsNone force hpc =>
      obtain rfl : force = false := h.one.force_eq hpc
      exact ⟨fun _ ↦ rfl, h.killed, nofun, h.history⟩
  | findsThread t force hpc ht =>
      obtain rfl : force = false := h.one.force_eq hpc
      have hzero : s.depth = 0 := h.lock.depth_eq_zero (by rw [hpc]; rfl)
      refine ⟨fun _ ↦ rfl, h.killed, ?_, h.history⟩
      rintro _ _ ⟨⟩
      exact (h.current t ht).trans hzero
  | kills t force hpc =>
      obtain rfl : force = false := h.one.force_eq hpc
      have hzero : s.depth = 0 := h.lock.depth_eq_zero (by rw [hpc]; rfl)
      exact ⟨fun _ ↦ rfl, List.forall_mem_cons.mpr ⟨h.chosen t false hpc, h.killed⟩, nofun,
        hhistory (by rw [hzero]; rfl)⟩
  | stopsPhase force hpc =>
      obtain rfl : force = false := h.one.force_eq hpc
      exact ⟨fun _ ↦ rfl, h.killed, nofun, h.history⟩
  | resetsForced hpc => cases h.one.force_eq hpc
  | resets hpc => exact ⟨nofun, h.killed, nofun, h.history⟩
  | releases hpc => exact ⟨hquiet (by rw [hpc]; rfl), h.killed, nofun, hhistory rfl⟩

theorem teardownSpared_step {s s' : Sync} (hstep : ThreadStep s s') (h : TeardownSpared s) :
    TeardownSpared s' := by
  have hlock := lockInv_step hstep h.lock
  have hone := oneAbort_step hstep h.one
  have hzero := h.depth_of_stopping
  have habort := teardownSpared_abortStep h
  obtain ⟨-, -, hstop, hkilled, hchosen, hcur, hhist⟩ := h
  cases hstep with
  | abort => exact habort
  | checkStopping =>
      refine ⟨hlock, hone, hstop, hkilled, hchosen, hcur, ?_⟩
      cases hs : s.stopping <;>
        simp_all [stoppingIsSet, record, ThreadEvent.outsideTeardown, or_imp, forall_and]
  | repeatPhase =>
      refine ⟨hlock, hone, hstop, hkilled, hchosen, hcur, ?_⟩
      simpa [Sync.repeatPhase, setStartPending, record, ThreadEvent.outsideTeardown, or_imp, forall_and]
        using hhist
  | enterTeardown hout hnone =>
      exact ⟨hlock, hone, hstop, hkilled, hchosen,
        fun t ht ↦ by simp [takeTeardownPhasesLock, hnone] at ht, hhist⟩
  | leaveTeardown hnone =>
      exact ⟨hlock, hone, hstop, hkilled, hchosen,
        fun t ht ↦ by simp [releaseTeardownPhasesLock, hnone] at ht, hhist⟩
  | enterGroup =>
      refine ⟨hlock, hone, hstop, hkilled, hchosen, hcur, ?_⟩
      simpa [Sync.enterGroup, setStartPending, record, ThreadEvent.outsideTeardown, or_imp, forall_and]
        using hhist
  | start =>
      refine ⟨hlock, hone, hstop, hkilled, hchosen, hcur, ?_⟩
      simpa [startPhaseThread, record, ThreadEvent.outsideTeardown, or_imp, forall_and] using hhist
  | setThread t ht =>
      refine ⟨hlock, hone, hstop, hkilled, hchosen, ?_, hhist⟩
      rintro t' ht'
      obtain rfl : t = t' := by simpa [setCurrentPhaseThread] using ht'
      exact ht
  | clearThread =>
      exact ⟨hlock, hone, hstop, hkilled, hchosen,
        fun t ht ↦ by simp [setCurrentPhaseThread] at ht, hhist⟩
  | join t ht =>
      refine ⟨hlock, hone, hstop, hkilled, hchosen, hcur, ?_⟩
      have hd : t ∈ s.killedThreads → s.depth = 0 := fun hk ↦ (hcur t ht).symm.trans (hkilled t hk)
      by_cases hk : t ∈ s.killedThreads <;>
        simp_all [joinPhaseThread, record, ThreadEvent.outsideTeardown, or_imp, forall_and]
  | _ => exact ⟨hlock, hone, hstop, hkilled, hchosen, hcur, hhist⟩

end Sync

/-! ## A single call of `abort` and later starts -/

def ThreadEvent.isReturn : ThreadEvent → Bool
  | .abortReturned _ => true
  | _ => false

/-- Whenever `abort` returned, the executor thread had no start pending outside the
teardown lock, and it has not decided since to run a phase there once more. -/
def Undisturbed (h : List ThreadEvent) : Prop :=
  .abortReturned true ∉ h ∧ h.Pairwise fun e e' ↦ e.isReturn = true → e' ≠ .repeated 0

/-- A phase is started, or a group is entered, outside the teardown lock. -/
def ThreadEvent.beginsOutside : ThreadEvent → Bool
  | .started t => t.depth == 0
  | .groupEntered depth => depth == 0
  | _ => false

/-- Once `abort` has returned, no phase is started and no group is entered outside
the teardown lock. -/
def NoLateStart (h : List ThreadEvent) : Prop :=
  h.Pairwise fun e e' ↦ e.isReturn = true → e'.beginsOutside = false

theorem undisturbed_concat {h : List ThreadEvent} {e : ThreadEvent} :
    Undisturbed (h ++ [e]) ↔
      Undisturbed h ∧ e ≠ .abortReturned true ∧ ((∃ r ∈ h, r.isReturn = true) → e ≠ .repeated 0) := by
  simp only [Undisturbed, List.mem_append, List.mem_singleton, List.pairwise_append,
    List.pairwise_singleton, forall_eq, true_and, not_or, ne_comm (a := e)]
  grind

theorem noLateStart_concat {h : List ThreadEvent} {e : ThreadEvent} :
    NoLateStart (h ++ [e]) ↔
      NoLateStart h ∧ ((∃ r ∈ h, r.isReturn = true) → e.beginsOutside = false) := by
  simp only [NoLateStart, List.mem_singleton, List.pairwise_append, List.pairwise_singleton,
    forall_eq, true_and]
  grind

namespace Sync

/-- Once `abort` has returned in an undisturbed run, a start is pending only
inside the teardown lock, and `_abort` stays set. -/
structure AbortSettled (s : Sync) : Prop where
  seen : AbortSeen s
  starts : Undisturbed s.history → NoLateStart s.history
  abort : (∃ r ∈ s.history, r.isReturn = true) → s.abort = true
  pending : Undisturbed s.history → (∃ r ∈ s.history, r.isReturn = true) →
    s.startPending = true → 0 < s.depth

/-- A step that adds an event to the history which is not a return. -/
theorem AbortSettled.record {s s' : Sync} (h : AbortSettled s) {e : ThreadEvent}
    (hh : s'.history = s.history ++ [e]) (hseen : AbortSeen s') (hret : e.isReturn = false)
    (habort : s.abort = true → s'.abort = true)
    (hstart : (s.startPending = true → 0 < s.depth) → e.beginsOutside = false)
    (hpending : s'.startPending = true →
      s'.depth = s.depth ∧ (s.startPending = true ∨ e = .repeated s.depth)) :
    AbortSettled s' := by
  have hmem : (∃ r ∈ s'.history, r.isReturn = true) ↔ ∃ r ∈ s.history, r.isReturn = true := by
    simp [hh, or_and_right, exists_or, hret]
  refine ⟨hseen, fun hu ↦ ?_, fun hr ↦ habort (h.abort (hmem.mp hr)), fun hu hr hp ↦ ?_⟩
  · rw [hh] at hu ⊢
    obtain ⟨hu, -, -⟩ := undisturbed_concat.mp hu
    exact noLateStart_concat.mpr
      ⟨h.starts hu, fun hr ↦ hstart (h.pending hu hr)⟩
  · rw [hh] at hu
    obtain ⟨hu, -, hrep⟩ := undisturbed_concat.mp hu
    obtain ⟨hd, hp | rfl⟩ := hpending hp
    · exact hd ▸ h.pending hu (hmem.mp hr) hp
    · rw [hd]
      exact Nat.pos_of_ne_zero fun hz ↦ hrep (hmem.mp hr) (by rw [hz])

/-- The return of a call that has set `_abort`. -/
theorem AbortSettled.return {s s' : Sync} (h : AbortSettled s)
    (hh : s'.history = s.history ++ [.abortReturned (s.startPending && s.depth == 0)])
    (hseen : AbortSeen s') (ha : s'.abort = true) (hp : s'.startPending = s.startPending)
    (hd : s'.depth = s.depth) : AbortSettled s' := by
  refine ⟨hseen, fun hu ↦ ?_, fun _ ↦ ha, fun hu _ hpend ↦ ?_⟩
  · rw [hh] at hu ⊢
    obtain ⟨hu, -, -⟩ := undisturbed_concat.mp hu
    exact noLateStart_concat.mpr ⟨h.starts hu, fun _ ↦ rfl⟩
  · rw [hh] at hu
    obtain ⟨-, hne, -⟩ := undisturbed_concat.mp hu
    rw [hp] at hpend
    rw [hd]
    exact Nat.pos_of_ne_zero fun hz ↦ hne (by simp [hpend, hz])

/-- A step that leaves the history as it is. -/
theorem AbortSettled.quiet {s s' : Sync} (h : AbortSettled s) (hh : s'.history = s.history)
    (hseen : AbortSeen s') (habort : s.abort = true → s'.abort = true)
    (hpending : s'.startPending = true →
      (s.startPending = true ∧ s'.depth = s.depth) ∨ s.abort = false) : AbortSettled s' := by
  refine ⟨hseen, by simpa only [hh] using h.starts, fun hr ↦ ?_, fun hu hr hp ↦ ?_⟩
  · exact habort (h.abort (by rwa [hh] at hr))
  · rw [hh] at hu hr
    rcases hpending hp with ⟨hp, hd⟩ | ha
    · exact hd ▸ h.pending hu hr hp
    · simp [h.abort hr] at ha

theorem abortSettled_abortStep {s : Sync} (h : AbortSettled s) : AbortSettled s.abortStep := by
  have hseen := abortSeen_abortStep h.seen
  have hview := sameView_abortStep s
  have hstep := abortStepped s
  generalize s.abortStep = s' at hseen hview hstep ⊢
  have hquiet (hh : s'.history = s.history) : AbortSettled s' :=
    h.quiet hh hseen hview.abort fun hp ↦ .inl ⟨hview.startPending ▸ hp, hview.depth⟩
  have hrecord (e : ThreadEvent) (hret : e.isReturn = false) (hstart : e.beginsOutside = false)
      (hh : s'.history = s.history ++ [e]) : AbortSettled s' :=
    h.record hh hseen hret hview.abort (fun _ ↦ hstart) fun hp ↦
      ⟨hview.depth, .inl (hview.startPending ▸ hp)⟩
  have hreturn (hpc : s.abortPc.afterSet = true)
      (hh : s'.history = s.history ++ [.abortReturned (s.startPending && s.depth == 0)]) : AbortSettled s' :=
    h.return hh hseen (hview.abort (h.seen.pc hpc)) hview.startPending hview.depth
  cases hstep with
  | setsStopping force hpc => exact hrecord (.stoppingSet s.depth) rfl rfl rfl
  | kills t force hpc => exact hrecord (.killed t s.depth) rfl rfl rfl
  | returns hpc =>
      refine hreturn ?_ rfl
      obtain hpc | ⟨force, hpc⟩ := hpc <;> rw [hpc] <;> rfl
  | resetsForced hpc => exact hreturn (by rw [hpc]; rfl) rfl
  | releases hpc =>
      have hd : (s.teardownPhasesLock.release .aborter).depth .executor = s.depth :=
        ReentrantLock.depth_release_of_ne (by decide)
      exact hreturn (by rw [hpc]; rfl) (by rw [← hd]; rfl)
  | waits | calls | checks | setsFullAbort | setsAbort | goesOn | acquires | findsNone | findsThread
  | stopsPhase | resets => exact hquiet rfl

theorem abortSettled_step {s s' : Sync} (hstep : ThreadStep s s') (h : AbortSettled s) :
    AbortSettled s' := by
  have hseen := abortSeen_step hstep h.seen
  have habort := abort_step hstep
  cases hstep with
  | abort => exact abortSettled_abortStep h
  | setPending b hb =>
      exact h.quiet rfl hseen habort fun hp ↦ .inr (hb hp)
  | enterTeardown | leaveTeardown =>
      exact h.quiet rfl hseen habort fun hp ↦ by cases hp
  | checkStopping =>
      refine h.record rfl hseen rfl habort (fun _ ↦ rfl) fun hp ↦ ⟨rfl, .inl ?_⟩
      exact (Bool.and_eq_true _ _ ▸ hp :).1
  | repeatPhase => exact h.record rfl hseen rfl habort (fun _ ↦ rfl) fun _ ↦ ⟨rfl, .inr rfl⟩
  | start hguard | enterGroup hguard =>
      refine h.record rfl hseen rfl habort (fun hpend ↦ ?_) fun hp ↦ by cases hp
      have hdepth : s.depth ≠ 0 := Nat.ne_of_gt (hguard.elim id hpend)
      simpa [ThreadEvent.beginsOutside] using hdepth
  | join t ht => exact h.record rfl hseen rfl habort (fun _ ↦ rfl) fun hp ↦ ⟨rfl, .inl hp⟩
  | _ => exact h.quiet rfl hseen habort fun hp ↦ .inl ⟨hp, rfl⟩

/-! ## Where a run starts -/

theorem abortSettled_initial (calls : ℕ) (pending : Bool) :
    AbortSettled { abortCalls := calls, startPending := pending } :=
  ⟨⟨by simp, by simp, by simp, by simp [AbortPc.afterSet]⟩, fun _ ↦ .nil, by simp, by simp⟩

theorem teardownSpared_initial {calls : ℕ} (h : calls ≤ 1) (pending : Bool) :
    TeardownSpared { abortCalls := calls, startPending := pending } := by
  refine ⟨rfl, ⟨rfl, rfl, h, ?_, ?_, ?_⟩, ?_, ?_, ?_, ?_, ?_⟩ <;> simp

end Sync

end OpenHtf
