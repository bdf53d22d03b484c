import Mathlib.Logic.Function.Basic
import OpenHtf.Lib.Interleaving

/-!
# Threads that can be killed

`threads.KillableThread`: one thread in `run`, and any number of threads that call
`kill` on it.  Every operation on `_running_lock` and `_killed`, every `is_alive` and
`PyThreadState_SetAsyncExc` is one step; an exception that was set reaches the thread
at any later point of its Python code.
-/

set_option autoImplicit false

namespace OpenHtf.KillableThread

/-! ## The model -/

/-- What comes out of `_thread_proc`: an `Exception`, or something that `except
Exception` lets through, as `ThreadTerminationError`. -/
inductive Raised where
  | exception
  | termination
  deriving DecidableEq

/-- Where the thread is in `run`. -/
inductive ThreadPc where
  | notStarted
  | acquiring
  | checking
  | proc
  | leaving (e : Option Raised)
  | excepting
  | finalizing
  | finishing
  | ended
  deriving DecidableEq

namespace ThreadPc

/-- Inside `with self._running_lock`. -/
def inside : ThreadPc → Bool
  | checking | proc | leaving _ => true
  | _ => false

def isAlive : ThreadPc → Bool
  | notStarted | ended => false
  | _ => true

/-- `_thread_finished` has been called, or the thread is over without. -/
def past : ThreadPc → Bool
  | finishing | ended => true
  | _ => false

end ThreadPc

/-- Where a thread is in `kill`: before the first `is_alive`, in
`_is_thread_proc_running` without and with the lock, in `async_raise` before its
`is_alive` and after it. -/
inductive KillPc where
  | idle
  | asking
  | probing
  | holding
  | raising
  | setting
  deriving DecidableEq

/-- In `async_raise`. -/
def KillPc.raises : KillPc → Bool
  | raising | setting => true
  | _ => false

/-- The holder of the lock is the thread itself, `none`, or one that kills it.
`delivered` counts the exceptions that have reached the thread, `since` is that count
at the last call of `kill`; `cut` says that one of them reached it outside of the
locked section, `finished` counts the calls of `_thread_finished`. -/
structure State (κ : Type) where
  lock : Option (Option κ) := none
  killed : Bool := false
  pending : Bool := false
  thread : ThreadPc := .notStarted
  kill : κ → KillPc := fun _ ↦ .idle
  delivered : ℕ := 0
  since : κ → Option ℕ := fun _ ↦ none
  cut : Bool := false
  finished : ℕ := 0

/-- `caught` says that the user code which the exception reaches catches it. -/
inductive Action (κ : Type) where
  | start
  | acquire
  | check
  | endProc (e : Option Raised)
  | leave
  | endException
  | callFinished
  | endFinished
  | deliver (caught : Bool)
  | kill (k : κ)
  deriving DecidableEq

/-- Where an exception that nobody catches takes the thread. -/
def ThreadPc.unwound : ThreadPc → Option ThreadPc
  | acquiring => some finalizing
  | checking | proc => some (leaving (some .termination))
  | excepting => some finalizing
  | finalizing | finishing => some ended
  | _ => none

/-- The user code at a place can catch an exception. -/
def ThreadPc.catches : ThreadPc → Bool
  | proc | excepting | finishing => true
  | _ => false

variable {κ : Type} [DecidableEq κ]

def State.setKill (s : State κ) (k : κ) (pc : KillPc) : State κ :=
  { s with kill := Function.update s.kill k pc }

/-- The next step of a thread that kills. -/
def killStep (s : State κ) (k : κ) : State κ :=
  match s.kill k with
  | .idle =>
    { s with killed := true, since := Function.update s.since k (some s.delivered) }.setKill k .asking
  | .asking => s.setKill k (if s.thread.isAlive then .probing else .idle)
  | .probing =>
    match s.lock with
    | none => { s with lock := some (some k) }.setKill k .holding
    | some _ => s.setKill k .raising
  | .holding => { s with lock := none }.setKill k .idle
  | .raising => s.setKill k (if s.thread.isAlive then .setting else .idle)
  | .setting => { s with pending := s.pending || s.thread.isAlive }.setKill k .idle

/-- The exception reaches the thread. -/
def deliver (s : State κ) (caught : Bool) : Option (State κ) :=
  let s' := { s with
    pending := false
    delivered := s.delivered + 1
    cut := s.cut || !s.thread.inside }
  if s.pending = false then none
  else if caught then if s.thread.catches then some s' else none
  else s.thread.unwound.map fun pc ↦ { s' with thread := pc }

def step (s : State κ) : Action κ → Option (State κ)
  | .start => if s.thread = .notStarted then some { s with thread := .acquiring } else none
  | .acquire =>
    if s.thread = .acquiring ∧ s.lock = none then some { s with lock := some none, thread := .checking }
    else none
  | .check =>
    if s.thread = .checking then
      some { s with thread := if s.killed then .leaving (some .termination) else .proc }
    else none
  | .endProc e => if s.thread = .proc then some { s with thread := .leaving e } else none
  | .leave =>
    match s.thread with
    | .leaving e =>
      some { s with lock := none, thread := if e = some .exception then .excepting else .finalizing }
    | _ => none
  | .endException => if s.thread = .excepting then some { s with thread := .finalizing } else none
  | .callFinished =>
    if s.thread = .finalizing then some { s with thread := .finishing, finished := s.finished + 1 } else none
  | .endFinished => if s.thread = .finishing then some { s with thread := .ended } else none
  | .deliver caught => deliver s caught
  | .kill k => some (killStep s k)

/-! ## The invariant -/

/-- The lock is held by the thread exactly while it is in the locked section, and by
one that kills exactly while it looks; whoever has called `kill` has set `_killed`,
and when its call is over then the thread is not in its proc without an exception
that waits for it or has reached it since the call began. -/
structure Inv (s : State κ) : Prop where
  thread : s.lock = some none ↔ s.thread.inside = true
  kill : ∀ k, s.lock = some (some k) ↔ s.kill k = .holding
  killed : ∀ k, (s.since k).isSome = true → s.killed = true
  begun : ∀ k, s.kill k ≠ .idle → (s.since k).isSome = true
  since : ∀ k, ∀ n ∈ s.since k, n ≤ s.delivered
  settled : ∀ k, s.kill k = .idle → ∀ n ∈ s.since k, s.thread = .proc → s.pending = true ∨ n < s.delivered

omit [DecidableEq κ] in
theorem inv_initial : Inv ({} : State κ) := by
  refine ⟨by simp [ThreadPc.inside], ?_, ?_, ?_, ?_, ?_⟩ <;> simp

omit [DecidableEq κ] in
/-- A step of the thread that keeps the section, or enters or leaves it. -/
theorem Inv.move {s : State κ} (hs : Inv s) {lock : Option (Option κ)} {pc : ThreadPc} {cut : Bool}
    {finished : ℕ} (hthread : lock = some none ↔ pc.inside = true)
    (hkill : ∀ k, lock = some (some k) ↔ s.lock = some (some k))
    (hproc : pc = .proc → s.thread = .proc ∨ s.killed = false) :
    Inv { s with lock := lock, thread := pc, cut := cut, finished := finished } where
  thread := hthread
  kill k := (hkill k).trans (hs.kill k)
  killed := hs.killed
  begun := hs.begun
  since := hs.since
  settled k hk n hn hpc := by
    rcases hproc hpc with h | h
    · exact hs.settled k hk n hn h
    · have hkilled := hs.killed k (Option.isSome_of_mem hn)
      simp [h] at hkilled

/-- A step of a thread that kills, once it has set `_killed`. -/
theorem Inv.setKill {s : State κ} (hs : Inv s) {k : κ} {lock : Option (Option κ)} {pending : Bool} {pc : KillPc}
    (hk : s.kill k ≠ .idle) (hthread : lock = some none ↔ s.lock = some none)
    (hother : ∀ j ≠ k, lock = some (some j) ↔ s.lock = some (some j))
    (hself : lock = some (some k) ↔ pc = .holding) (hpending : s.pending = true → pending = true)
    (hover : pc = .idle → s.thread = .proc → pending = true) :
    Inv ({ s with lock := lock, pending := pending }.setKill k pc) where
  thread := hthread.trans hs.thread
  kill j := by
    by_cases hj : j = k
    · subst hj
      simpa [State.setKill] using hself
    · simpa [State.setKill, Function.update_of_ne hj] using (hother j hj).trans (hs.kill j)
  killed := hs.killed
  begun j hpc := by
    by_cases hj : j = k
    · exact hs.begun j (hj ▸ hk)
    · exact hs.begun j (by simpa [State.setKill, Function.update_of_ne hj] using hpc)
  since := hs.since
  settled j hpc n hn hproc := by
    by_cases hj : j = k
    · subst hj
      exact .inl (hover (by simpa [State.setKill] using hpc) hproc)
    · refine (hs.settled j ?_ n hn hproc).imp_left hpending
      simpa [State.setKill, Function.update_of_ne hj] using hpc

/-- A call of `kill` begins. -/
theorem Inv.beginKill {s : State κ} (hs : Inv s) {k : κ} (hk : s.kill k = .idle) :
    Inv ({ s with killed := true, since := Function.update s.since k (some s.delivered) }.setKill k .asking) where
  thread := hs.thread
  kill j := by
    by_cases hj : j = k
    · subst hj
      simp [State.setKill, hs.kill, hk]
    · simpa [State.setKill, Function.update_of_ne hj] using hs.kill j
  killed _ _ := rfl
  begun j hpc := by
    by_cases hj : j = k
    · simp [State.setKill, hj]
    · simpa [State.setKill, Function.update_of_ne hj] using
        hs.begun j (by simpa [State.setKill, Function.update_of_ne hj] using hpc)
  since j n hn := by
    by_cases hj : j = k
    · subst hj
      simp only [State.setKill, Function.update_self, Option.mem_some_iff] at hn
      exact Nat.le_of_eq hn.symm
    · exact hs.since j n (by simpa [State.setKill, Function.update_of_ne hj] using hn)
  settled j hpc n hn hproc := by
    by_cases hj : j = k
    · simp [State.setKill, hj] at hpc
    · refine hs.settled j ?_ n ?_ hproc
      · simpa [State.setKill, Function.update_of_ne hj] using hpc
      · simpa [State.setKill, Function.update_of_ne hj] using hn

theorem inv_killStep {s : State κ} (hs : Inv s) (k : κ) : Inv (killStep s k) := by
  have hlock := hs.kill k
  unfold killStep
  cases hk : s.kill k with
  | idle => exact hs.beginKill hk
  | asking =>
      refine hs.setKill (by simp [hk]) Iff.rfl (fun _ _ ↦ Iff.rfl) ?_ id fun hpc hproc ↦ ?_
      · split <;> simp [hlock, hk]
      · simp [hproc, ThreadPc.isAlive] at hpc
  | probing =>
      cases hl : s.lock with
      | none =>
          refine hs.setKill (by simp [hk]) (by simp [hl]) (fun j hj ↦ ?_) (by simp) id (by simp)
          simp [hl, hj.symm]
      | some o =>
          refine hs.setKill (by simp [hk]) Iff.rfl (fun _ _ ↦ Iff.rfl) ?_ id (by simp)
          simp [hlock, hk]
  | holding =>
      have hheld : s.lock = some (some k) := hlock.mpr hk
      refine hs.setKill (by simp [hk]) (by simp [hheld]) (fun j hj ↦ ?_) (by simp) id fun _ hproc ↦ ?_
      · simp [hheld, hj.symm]
      · have hthread := hs.thread.mpr (by simp [hproc, ThreadPc.inside])
        simp [hheld] at hthread
  | raising =>
      refine hs.setKill (by simp [hk]) Iff.rfl (fun _ _ ↦ Iff.rfl) ?_ id fun hpc hproc ↦ ?_
      · split <;> simp [hlock, hk]
      · simp [hproc, ThreadPc.isAlive] at hpc
  | setting =>
      refine hs.setKill (by simp [hk]) Iff.rfl (fun _ _ ↦ Iff.rfl) (by simp [hlock, hk]) (by simp +contextual)
        fun _ hproc ↦ by simp [hproc, ThreadPc.isAlive]

omit [DecidableEq κ] in
/-- The thread is somewhere else after an exception has reached it, or has caught it. -/
theorem Inv.delivered {s : State κ} (hs : Inv s) {pc : ThreadPc} {cut : Bool}
    (hinside : pc.inside = s.thread.inside) :
    Inv { s with pending := false, delivered := s.delivered + 1, cut := cut, thread := pc } where
  thread := by rw [hinside]; exact hs.thread
  kill := hs.kill
  killed := hs.killed
  begun := hs.begun
  since k n hn := Nat.le_succ_of_le (hs.since k n hn)
  settled k _ n hn _ := .inr (Nat.lt_succ_of_le (hs.since k n hn))

/-- An exception keeps the thread within the section or outside of it. -/
theorem ThreadPc.inside_unwound {pc pc' : ThreadPc} (h : pc.unwound = some pc') : pc'.inside = pc.inside := by
  cases pc <;> simp [unwound] at h <;> subst h <;> rfl

omit [DecidableEq κ] in
theorem inv_deliver {s s' : State κ} (hs : Inv s) {caught : Bool} (h : deliver s caught = some s') : Inv s' := by
  unfold deliver at h
  dsimp only at h
  split_ifs at h
  · obtain rfl := Option.some.inj h
    exact hs.delivered (Eq.refl s.thread.inside)
  · obtain ⟨pc, hpc, rfl⟩ := Option.map_eq_some_iff.mp h
    exact hs.delivered (ThreadPc.inside_unwound hpc)

theorem inv_step {s s' : State κ} {a : Action κ} (hs : Inv s) (h : step s a = some s') : Inv s' := by
  have hthread := hs.thread
  have hkeep {pc : ThreadPc} {finished : ℕ} (hpc : pc.inside = s.thread.inside)
      (hproc : pc = .proc → s.thread = .proc ∨ s.killed = false) :
      Inv { s with thread := pc, finished := finished } :=
    hs.move (by rw [hthread, hpc]) (fun _ ↦ Iff.rfl) hproc
  cases a with
  | start =>
      simp only [step, Option.ite_none_right_eq_some, Option.some.injEq] at h
      obtain ⟨hpc, rfl⟩ := h
      exact hkeep (by simp [hpc, ThreadPc.inside]) (by simp)
  | acquire =>
      simp only [step, Option.ite_none_right_eq_some, Option.some.injEq] at h
      obtain ⟨⟨hpc, hlock⟩, rfl⟩ := h
      exact hs.move (by simp [ThreadPc.inside]) (by simp [hlock]) (by simp)
  | check =>
      simp only [step, Option.ite_none_right_eq_some, Option.some.injEq] at h
      obtain ⟨hpc, rfl⟩ := h
      refine hkeep ?_ ?_
      · split <;> simp [hpc, ThreadPc.inside]
      · intro hproc
        split at hproc
        · cases hproc
        · exact .inr (by simpa using ‹¬s.killed = true›)
  | endProc e =>
      simp only [step, Option.ite_none_right_eq_some, Option.some.injEq] at h
      obtain ⟨hpc, rfl⟩ := h
      exact hkeep (by simp [hpc, ThreadPc.inside]) (by simp)
  | leave =>
      simp only [step] at h
      split at h
      · rename_i e hpc
        obtain rfl := Option.some.inj h
        have hheld := hthread.mpr (by simp [hpc, ThreadPc.inside])
        refine hs.move ?_ (by simp [hheld]) ?_
        · split <;> simp [ThreadPc.inside]
        · split <;> simp
      · cases h
  | endException =>
      simp only [step, Option.ite_none_right_eq_some, Option.some.injEq] at h
      obtain ⟨hpc, rfl⟩ := h
      exact hkeep (by simp [hpc, ThreadPc.inside]) (by simp)
  | callFinished =>
      simp only [step, Option.ite_none_right_eq_some, Option.some.injEq] at h
      obtain ⟨hpc, rfl⟩ := h
      exact hkeep (by simp [hpc, ThreadPc.inside]) (by simp)
  | endFinished =>
      simp only [step, Option.ite_none_right_eq_some, Option.some.injEq] at h
      obtain ⟨hpc, rfl⟩ := h
      exact hkeep (by simp [hpc, ThreadPc.inside]) (by simp)
  | deliver caught => exact inv_deliver hs h
  | kill k =>
      obtain rfl := Option.some.inj h
      exact inv_killStep hs k

theorem inv_run {as : List (Action κ)} {s : State κ} (hrun : runActions step as {} = some s) : Inv s :=
  run_invariant (C := fun _ _ ↦ True) (fun _ _ _ hs _ h ↦ inv_step hs h) inv_initial
    (runMeets_of_forall (fun _ _ _ ↦ trivial) _) hrun

/-! ## No kill is lost -/

/-- A thread that has been killed does not begin its proc. -/
theorem barred_step {s s' : State κ} {a : Action κ} (hs : s.killed = true ∧ s.thread ≠ .proc)
    (h : step s a = some s') : s'.killed = true ∧ s'.thread ≠ .proc := by
  obtain ⟨hkilled, hproc⟩ := hs
  cases a with
  | start | acquire | endProc e | endException | callFinished | endFinished =>
      simp only [step, Option.ite_none_right_eq_some, Option.some.injEq] at h
      obtain ⟨-, rfl⟩ := h
      exact ⟨hkilled, by simp⟩
  | check =>
      simp only [step, hkilled, if_true, Option.ite_none_right_eq_some, Option.some.injEq] at h
      obtain ⟨-, rfl⟩ := h
      exact ⟨rfl, by simp⟩
  | leave =>
      simp only [step] at h
      split at h
      · obtain rfl := Option.some.inj h
        refine ⟨hkilled, ?_⟩
        split <;> simp
      · cases h
  | deliver caught =>
      simp only [step, deliver] at h
      split_ifs at h
      · obtain rfl := Option.some.inj h
        exact ⟨hkilled, hproc⟩
      · obtain ⟨pc, hpc, rfl⟩ := Option.map_eq_some_iff.mp h
        refine ⟨hkilled, fun hp ↦ ?_⟩
        cases ht : s.thread <;> simp [ht, ThreadPc.unwound] at hpc <;> subst hpc <;> cases hp
  | kill k =>
      obtain rfl := Option.some.inj h
      unfold killStep
      split
      · exact ⟨rfl, hproc⟩
      · exact ⟨hkilled, hproc⟩
      · split <;> exact ⟨hkilled, hproc⟩
      · exact ⟨hkilled, hproc⟩
      · exact ⟨hkilled, hproc⟩
      · exact ⟨hkilled, hproc⟩

/-- Once a call of `kill` is over, and however many others there are, the thread is in
its proc with an exception that waits for it or has reached it since the call began,
or it is not in its proc and never will be. -/
theorem kill_not_lost {as : List (Action κ)} {s : State κ} (hrun : runActions step as {} = some s)
    {k : κ} {n : ℕ} (hidle : s.kill k = .idle) (hn : s.since k = some n) :
    s.thread = .proc ∧ (s.pending = true ∨ n < s.delivered) ∨
      ∀ bs s', runActions step bs s = some s' → s'.thread ≠ .proc := by
  have hs := inv_run hrun
  by_cases hproc : s.thread = .proc
  · exact .inl ⟨hproc, hs.settled k hidle n hn hproc⟩
  · refine .inr fun bs s' hbs ↦ ?_
    have hbarred : s.killed = true ∧ s.thread ≠ .proc := ⟨hs.killed k (by simp [hn]), hproc⟩
    exact (run_invariant (C := fun _ _ ↦ True) (fun _ _ _ h _ hstep ↦ barred_step h hstep) hbarred
      (runMeets_of_forall (fun _ _ _ ↦ trivial) _) hbs).2

theorem kill_not_lost_running :
    let run : List (Action Unit) :=
      [.start, .acquire, .check, .kill (), .kill (), .kill (), .kill (), .kill ()]
    ∃ s : State Unit, runActions step run {} = some s ∧
      (s.thread = .proc ∧ (s.pending = true ∨ 0 < s.delivered) ∨
        ∀ bs s', runActions step bs s = some s' → s'.thread ≠ .proc) := by
  intro run
  have hrun : runActions step run ({} : State Unit) = some _ := rfl
  exact ⟨_, hrun, kill_not_lost hrun (k := ()) (n := 0) rfl rfl⟩

/-! ## What is hit outside of the proc -/

/-- An exception is set, or about to be, only while the thread is in the locked
section; none has reached it elsewhere, and `_thread_finished` is called once. -/
structure Guarded (s : State κ) : Prop where
  pending : s.pending = true → s.thread.inside = true
  raises : ∀ k, (s.kill k).raises = true → s.thread.inside = true
  cut : s.cut = false
  finished : s.finished = if s.thread.past then 1 else 0

omit [DecidableEq κ] in
theorem guarded_initial : Guarded ({} : State κ) := by
  refine ⟨by simp, ?_, rfl, rfl⟩
  simp [KillPc.raises]

/-- The thread leaves the locked section only when no exception is set or about to be,
and nobody takes another's look at the lock for the running proc. -/
def Clean (s : State κ) : Action κ → Prop
  | .leave => s.pending = false ∧ ∀ k, (s.kill k).raises = false
  | .kill k => s.kill k = .probing → ∀ j, s.lock ≠ some (some j)
  | _ => True

/-- A thread that kills moves on, to `async_raise` only while the thread is in the section. -/
theorem Guarded.setKill {s : State κ} (hs : Guarded s) {k : κ} {pc : KillPc} {lock : Option (Option κ)}
    {killed pending : Bool} {since : κ → Option ℕ} (hpc : pc.raises = true → s.thread.inside = true)
    (hpending : pending = true → s.thread.inside = true) :
    Guarded ({ s with lock := lock, killed := killed, pending := pending, since := since }.setKill k pc) where
  pending := hpending
  raises j hj := by
    by_cases hjk : j = k
    · subst hjk
      exact hpc (by simpa [State.setKill] using hj)
    · exact hs.raises j (by simpa [State.setKill, Function.update_of_ne hjk] using hj)
  cut := hs.cut
  finished := hs.finished

theorem guarded_killStep {s : State κ} (hinv : Inv s) (hs : Guarded s) (k : κ) (hclean : Clean s (.kill k)) :
    Guarded (killStep s k) := by
  unfold killStep
  cases hk : s.kill k with
  | idle => exact hs.setKill (by simp [KillPc.raises]) hs.pending
  | asking => exact hs.setKill (by split <;> simp [KillPc.raises]) hs.pending
  | probing =>
      cases hl : s.lock with
      | none => exact hs.setKill (by simp [KillPc.raises]) hs.pending
      | some o =>
          -- Whoever holds the lock does not kill, so it is the thread.
          refine hs.setKill (fun _ ↦ hinv.thread.mp ?_) hs.pending
          cases o with
          | none => exact hl
          | some j => exact absurd hl (hclean hk j)
  | holding => exact hs.setKill (by simp [KillPc.raises]) hs.pending
  | raising =>
      have hinside := hs.raises k (by simp [hk, KillPc.raises])
      exact hs.setKill (fun _ ↦ hinside) hs.pending
  | setting =>
      have hinside := hs.raises k (by simp [hk, KillPc.raises])
      exact hs.setKill (by simp [KillPc.raises]) fun _ ↦ hinside

omit [DecidableEq κ] in
/-- The thread moves on within the section or outside of it. -/
theorem Guarded.move {s : State κ} (hs : Guarded s) {pc : ThreadPc} {lock : Option (Option κ)} {finished : ℕ}
    (hinside : s.thread.inside = true → pc.inside = true) (hfinished : finished = if pc.past then 1 else 0) :
    Guarded { s with lock := lock, thread := pc, finished := finished } where
  pending h := hinside (hs.pending h)
  raises k h := hinside (hs.raises k h)
  cut := hs.cut
  finished := hfinished

theorem guarded_step {s s' : State κ} {a : Action κ} (hinv : Inv s) (hs : Guarded s) (hclean : Clean s a)
    (h : step s a = some s') : Guarded s' := by
  have hfinished := hs.finished
  cases a with
  | start | acquire | endException | callFinished | endFinished =>
      simp only [step, Option.ite_none_right_eq_some, Option.some.injEq] at h
      obtain ⟨hpc, rfl⟩ := h
      refine hs.move (by simp [hpc, ThreadPc.inside]) ?_
      simp_all [ThreadPc.past]
  | check =>
      simp only [step, Option.ite_none_right_eq_some, Option.some.injEq] at h
      obtain ⟨hpc, rfl⟩ := h
      refine hs.move (fun _ ↦ ?_) ?_
      · split <;> rfl
      · split <;> simp [hfinished, hpc, ThreadPc.past]
  | endProc e =>
      simp only [step, Option.ite_none_right_eq_some, Option.some.injEq] at h
      obtain ⟨hpc, rfl⟩ := h
      exact hs.move (fun _ ↦ rfl) (by simp [hfinished, hpc, ThreadPc.past])
  | leave =>
      obtain ⟨hpending, hraises⟩ := hclean
      simp only [step] at h
      split at h
      · rename_i e hpc
        obtain rfl := Option.some.inj h
        refine ⟨by simp [hpending], by simp [hraises], hs.cut, ?_⟩
        split <;> simp [hfinished, hpc, ThreadPc.past]
      · cases h
  | deliver caught =>
      have hdelivered {pc : ThreadPc} (hpending : s.pending = true) (hpc : pc.inside = s.thread.inside) :
          Guarded { s with
            pending := false, delivered := s.delivered + 1, cut := s.cut || !s.thread.inside, thread := pc } := by
        have hinside := hs.pending hpending
        rw [hinside] at hpc
        refine ⟨by simp, fun _ _ ↦ hpc, by simp [hs.cut, hinside], ?_⟩
        cases ht : s.thread <;> cases pc <;> simp_all [ThreadPc.inside, ThreadPc.past]
      simp only [step, deliver] at h
      split_ifs at h with hpending
      · obtain rfl := Option.some.inj h
        exact hdelivered (by simpa using hpending) rfl
      · obtain ⟨pc, hpc, rfl⟩ := Option.map_eq_some_iff.mp h
        exact hdelivered (by simpa using hpending) (ThreadPc.inside_unwound hpc)
  | kill k =>
      obtain rfl := Option.some.inj h
      exact guarded_killStep hinv hs k hclean

/-- If an exception hits the thread outside of the locked section, or the thread ends
without exactly one call of `_thread_finished`, then before that the thread left the
section while an exception was set or about to be, or a thread that kills took the look
of another at the lock for the running proc. -/
theorem exists_race {as : List (Action κ)} {s : State κ} (hrun : runActions step as {} = some s)
    (h : s.cut = true ∨ s.thread = .ended ∧ s.finished ≠ 1) :
    ∃ pre a post t, as = pre ++ a :: post ∧ runActions step pre {} = some t ∧
      (a = .leave ∧ (t.pending = true ∨ ∃ k, (t.kill k).raises = true) ∨
        ∃ k j, a = .kill k ∧ t.kill k = .probing ∧ t.lock = some (some j)) := by
  have hunclean : ¬RunMeets step Clean as ({} : State κ) := by
    intro hclean
    have hguarded := (run_invariant (I := fun s ↦ Inv s ∧ Guarded s)
      (fun _ _ _ hs hclean hstep ↦ ⟨inv_step hs.1 hstep, guarded_step hs.1 hs.2 hclean hstep⟩)
      ⟨inv_initial, guarded_initial⟩ hclean hrun).2
    rcases h with hcut | ⟨hended, hfinished⟩
    · simp [hguarded.cut] at hcut
    · simp [hguarded.finished, hended, ThreadPc.past] at hfinished
  obtain ⟨pre, a, post, t, rfl, hpre, ha⟩ := exists_of_not_runMeets hunclean
  refine ⟨pre, a, post, t, rfl, hpre, ?_⟩
  cases a with
  | leave =>
      refine .inl ⟨rfl, ?_⟩
      by_cases hpending : t.pending = true
      · exact .inl hpending
      · refine .inr ?_
        by_contra hno
        exact ha ⟨by simpa using hpending, by simpa using hno⟩
  | kill k =>
      simp only [Clean, not_forall, not_not] at ha
      obtain ⟨hprobing, j, hj⟩ := ha
      exact .inr ⟨k, j, rfl, hprobing, hj⟩
  | _ => exact absurd trivial ha

/-- The thread is in its `finally` clause, and the second of two killers takes the first
one's look at the lock for the proc: `_thread_finished` is never called. -/
theorem exists_race_probe :
    let run : List (Action Bool) :=
      [.start, .acquire, .check, .endProc none, .leave, .kill false, .kill false, .kill true, .kill true,
        .kill false, .kill true, .kill false, .kill true, .kill true, .deliver false]
    ∃ pre a post t, run = pre ++ a :: post ∧ runActions step pre {} = some t ∧
      (a = .leave ∧ (t.pending = true ∨ ∃ k, (t.kill k).raises = true) ∨
        ∃ k j, a = .kill k ∧ t.kill k = .probing ∧ t.lock = some (some j)) := by
  intro run
  have hrun : runActions step run ({} : State Bool) = some _ := rfl
  exact exists_race hrun (.inl rfl)

-- The proc is over before the exception that was set reaches the thread.
example : (runActions step [.start, .acquire, .check, .kill (), .kill (), .kill (), .kill (), .kill (),
    .endProc none, .leave, .deliver false] {}).map (fun s ↦ (s.thread, s.cut, s.finished)) =
      some (.ended, true, 0) := by
  decide

end OpenHtf.KillableThread
