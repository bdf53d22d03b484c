import Mathlib.Data.List.Nodup
import Mathlib.Logic.Function.Basic
import OpenHtf.Lib.Interleaving

/-!
# Executing tests

`test_descriptor.Test`: any number of threads that call `execute` on any tests and read
their `state`, and SIGINT, whose handler runs in the main thread on top of what that
thread is doing.  Every operation on `_lock`, `_executor` and `TEST_INSTANCES` is one
step, and an exception can reach a thread at each of them.
-/

set_option autoImplicit false

namespace OpenHtf.TestExecution

/-! ## The model -/

/-- What `execute` does with its executor, once it is done. -/
inductive Call where
  | start
  | wait
  | finalize
  | output (n : ℕ)
  | close
  deriving DecidableEq

/-- An executor; whether its test passed is known when its thread is done. -/
structure Execution (τ : Type) where
  test : τ
  calls : List Call := []
  done : Bool := false
  passed : Bool := false

/-- `with self._lock: if self._executor: …` of `state` and `abort_from_sig_int`. -/
inductive Section where
  | acquiring
  | testing
  | reading
  | aborting
  | releasing
  deriving DecidableEq

/-- Where a call of `execute` is after it has made its executor: in the locked section,
between that and the `try`, in the `try` and its `except KeyboardInterrupt`, in the
`finally` clause and in that of this. -/
inductive Stage where
  | registering
  | starting
  | unlocking
  | started
  | waiting
  | interrupted
  | finalizing
  | outputting (n : ℕ)
  | deleting
  | closing
  | clearing
  deriving DecidableEq

/-- `raised` says that the `finally` clauses run because of an exception. -/
inductive Pc (τ : Type) where
  | idle
  | state (p : Section) (t : τ)
  | acquiring (t : τ)
  | checking (t : τ)
  | creating (t : τ)
  | owning (p : Stage) (t : τ) (e : ℕ) (raised : Bool)
  deriving DecidableEq

def Section.locked : Section → Bool
  | .acquiring => false
  | _ => true

def Stage.locked : Stage → Bool
  | .registering | .starting | .unlocking => true
  | _ => false

/-- The test whose lock the code of a thread holds. -/
def Pc.held {τ : Type} : Pc τ → Option τ
  | .state p t => if p.locked then some t else none
  | .checking t | .creating t => some t
  | .owning p t _ _ => if p.locked then some t else none
  | _ => none

/-- Where an exception takes the code of a thread; `keyboard` says that it is a
`KeyboardInterrupt`. -/
def Pc.raised {τ : Type} (keyboard : Bool) : Pc τ → Pc τ
  | .owning p t e _ =>
    match p with
    | .waiting => .owning (if keyboard then .interrupted else .finalizing) t e true
    | .interrupted => .owning .finalizing t e true
    | .finalizing | .outputting _ => .owning .deleting t e true
    | _ => .idle
  | _ => .idle

@[simp] theorem Pc.held_raised {τ : Type} (keyboard : Bool) (pc : Pc τ) : (pc.raised keyboard).held = none := by
  unfold raised
  split
  · split <;> cases keyboard <;> rfl
  · rfl

/-- Where a call of `handle_sig_int` is; `i` entries of `TEST_INSTANCES` are behind its
iterator, which was made when there were `n` of them. -/
inductive FramePc (τ : Type) where
  | entered
  | iterating (i n : ℕ)
  | aborting (p : Section) (t : τ) (i n : ℕ)
  | looped
  deriving DecidableEq

/-- A call of `handle_sig_int`, and the number of calls of `abort` before it. -/
structure Frame (τ : Type) where
  pc : FramePc τ := .entered
  since : ℕ
  deriving DecidableEq

/-- Who holds the lock of a test: a thread, or a call of `handle_sig_int`. -/
inductive Holder (θ : Type) where
  | code (k : θ)
  | handler
  deriving DecidableEq

/-- Executors are numbered in the order of their making, and are their own uids.
`instances` has a place for every entry there was, as a dictionary has, which a
deletion leaves empty; `frames` are the calls of `handle_sig_int`, the innermost one
first. -/
structure State (θ τ : Type) where
  lock : τ → Option (Holder θ) := fun _ ↦ none
  executor : τ → Option ℕ := fun _ ↦ none
  executions : List (Execution τ) := []
  instances : List (Option (Option ℕ × τ)) := []
  handledSigintOnce : Bool := false
  aborts : List ℕ := []
  returned : List (ℕ × Bool) := []
  pc : θ → Pc τ := fun _ ↦ .idle
  frames : List (Frame τ) := []

inductive Action (θ : Type) (τ : Type) where
  | execute (k : θ) (t : τ)
  | state (k : θ) (t : τ)
  | step (k : θ)
  | raise (k : θ)
  | finish (e : ℕ) (passed : Bool)
  | sigint
  | handler
  deriving DecidableEq

section Model

variable {θ τ : Type} [DecidableEq θ] [DecidableEq τ]

namespace State

def setPc (k : θ) (pc : Pc τ) (s : State θ τ) : State θ τ := { s with pc := Function.update s.pc k pc }

omit [DecidableEq τ] in
theorem setPc_self (s : State θ τ) (k : θ) (pc : Pc τ) : (s.setPc k pc).pc k = pc := Function.update_self ..

omit [DecidableEq τ] in
theorem setPc_of_ne (s : State θ τ) {j k : θ} (h : j ≠ k) (pc : Pc τ) : (s.setPc k pc).pc j = s.pc j :=
  Function.update_of_ne h ..

def setLock (t : τ) (h : Option (Holder θ)) (s : State θ τ) : State θ τ :=
  { s with lock := Function.update s.lock t h }

def setExecutor (t : τ) (e : Option ℕ) (s : State θ τ) : State θ τ :=
  { s with executor := Function.update s.executor t e }

/-- A call on an executor is done. -/
def record (e : ℕ) (c : Call) (s : State θ τ) : State θ τ :=
  { s with executions := s.executions.modify e fun x ↦ { x with calls := x.calls ++ [c] } }

def isDone (s : State θ τ) (e : ℕ) : Bool := s.executions[e]?.any (·.done)

/-- An exception in `k`, which leaves the `with` statement that it is in. -/
def raiseIn (k : θ) (keyboard : Bool) (s : State θ τ) : State θ τ :=
  let s' := match (s.pc k).held with
    | some t => s.setLock t none
    | none => s
  s'.setPc k ((s.pc k).raised keyboard)

end State

/-- What comes of a step in a `Section`. -/
inductive Result (θ τ : Type) where
  | next (p : Section) (s : State θ τ)
  | finished (s : State θ τ)
  | raised

def sectionStep (abort : Bool) (h : Holder θ) (t : τ) (s : State θ τ) : Section → Option (Result θ τ)
  | .acquiring => if s.lock t = none then some (.next .testing (s.setLock t (some h))) else none
  | .testing => some (.next (if s.executor t = none then .releasing else .reading) s)
  | .reading =>
    some (if s.executor t = none then .raised else .next (if abort then .aborting else .releasing) s)
  | .aborting =>
    match s.executor t with
    | none => some .raised
    | some e => some (.next .releasing { s with aborts := s.aborts ++ [e] })
  | .releasing => some (.finished (s.setLock t none))

/-- The code of a thread goes on. -/
def Result.resume (k : θ) (t : τ) (s : State θ τ) : Result θ τ → State θ τ
  | .next p s' => s'.setPc k (.state p t)
  | .finished s' => s'.setPc k .idle
  | .raised => s.raiseIn k false

/-- `TEST_INSTANCES[uid] = t`. -/
def setInstance (uid : Option ℕ) (t : τ) (is : List (Option (Option ℕ × τ))) : List (Option (Option ℕ × τ)) :=
  if is.any (·.any (·.1 = uid)) then is.map fun i ↦ if i.any (·.1 = uid) then some (uid, t) else i
  else is ++ [some (uid, t)]

/-- `del TEST_INSTANCES[uid]`, when there is such an entry. -/
def delInstance (uid : Option ℕ) (is : List (Option (Option ℕ × τ))) : List (Option (Option ℕ × τ)) :=
  is.map fun i ↦ if i.any (·.1 = uid) then none else i

/-- A step on `self._executor`, which is an `AttributeError` when that is `None`. -/
def withExecutor (k : θ) (t : τ) (s : State θ τ) (f : ℕ → Option (State θ τ)) : Option (State θ τ) :=
  match s.executor t with
  | none => some (s.raiseIn k false)
  | some e => f e

/-- The next step of a call of `execute` that has made its executor. -/
def stageStep (callbacks : τ → ℕ) (k : θ) (t : τ) (e : ℕ) (raised : Bool) (s : State θ τ) :
    Stage → Option (State θ τ)
  | .registering =>
    some (State.setPc k (.owning .starting t e raised)
      { s with instances := setInstance (s.executor t) t s.instances })
  | .starting => withExecutor k t s fun e' ↦
    some ((s.record e' .start).setPc k (.owning .unlocking t e raised))
  | .unlocking => some ((s.setLock t none).setPc k (.owning .started t e raised))
  | .started => some (s.setPc k (.owning .waiting t e raised))
  | .waiting | .interrupted => withExecutor k t s fun e' ↦
    if s.isDone e' then some ((s.record e' .wait).setPc k (.owning .finalizing t e raised)) else none
  | .finalizing => withExecutor k t s fun e' ↦
    some ((s.record e' .finalize).setPc k (.owning (.outputting 0) t e' raised))
  | .outputting n =>
    some (if n < callbacks t then (s.record e (.output n)).setPc k (.owning (.outputting (n + 1)) t e raised)
      else s.setPc k (.owning .deleting t e raised))
  | .deleting =>
    some (if s.instances.any (·.any (·.1 = s.executor t)) then
        State.setPc k (.owning .closing t e raised)
          { s with instances := delInstance (s.executor t) s.instances }
      else s.raiseIn k false)
  | .closing => withExecutor k t s fun e' ↦
    if s.isDone e' then some ((s.record e' .close).setPc k (.owning .clearing t e raised)) else none
  | .clearing =>
    let s' := (s.setExecutor t none).setPc k .idle
    some (if raised then s'
      else { s' with returned := s.returned ++ [(e, s.executions[e]?.any (·.passed))] })

/-- The next step of the code of a thread. -/
def codeStep (callbacks : τ → ℕ) (k : θ) (s : State θ τ) : Option (State θ τ) :=
  match s.pc k with
  | .idle => none
  | .state p t => (sectionStep false (.code k) t s p).map (Result.resume k t s)
  | .acquiring t =>
    if s.lock t = none then some ((s.setLock t (some (.code k))).setPc k (.checking t)) else none
  | .checking t => some (if s.executor t = none then s.setPc k (.creating t) else s.raiseIn k false)
  | .creating t =>
    let e := s.executions.length
    some (State.setPc k (.owning .registering t e false)
      (State.setExecutor t (some e) { s with executions := s.executions ++ [{ test := t }] }))
  | .owning p t e raised => stageStep callbacks k t e raised s p

/-- An exception in a call of `handle_sig_int` ends all of them, and goes on in the main
thread. -/
def raiseMain (main : θ) (keyboard : Bool) (s : State θ τ) : State θ τ :=
  State.raiseIn main keyboard
    { s with frames := [], lock := fun t ↦ if s.lock t = some .handler then none else s.lock t }

/-- The next entry that the iterator of `TEST_INSTANCES` comes to, and the place after it. -/
def nextInstance (is : List (Option (Option ℕ × τ))) (i : ℕ) : Option (τ × ℕ) :=
  ((is.zipIdx.drop i).findSome? fun p ↦ p.1.map fun q ↦ (q.2, p.2 + 1))

/-- `handle_sig_int` goes on. -/
def Result.handle (main : θ) (t : τ) (i n : ℕ) (s : State θ τ) (f : Frame τ) (rest : List (Frame τ)) :
    Result θ τ → State θ τ
  | .next p s' => { s' with frames := { f with pc := .aborting p t i n } :: rest }
  | .finished s' => { s' with frames := { f with pc := .iterating i n } :: rest }
  | .raised => raiseMain main false s

/-- The next step of `handle_sig_int`; the default handler raises `KeyboardInterrupt`. -/
def handlerStep (main : θ) (s : State θ τ) (f : Frame τ) (rest : List (Frame τ)) : Option (State θ τ) :=
  let size := (s.instances.filterMap id).length
  match f.pc with
  | .entered =>
    some (if size = 0 then raiseMain main true s
      else { s with frames := { f with pc := .iterating 0 size } :: rest })
  | .iterating i n =>
    some (if size ≠ n then raiseMain main false s
      else match nextInstance s.instances i with
        | none => { s with frames := { f with pc := .looped } :: rest }
        | some (t, j) => { s with frames := { f with pc := .aborting .acquiring t j n } :: rest })
  | .aborting p t i n => (sectionStep true .handler t s p).map (Result.handle main t i n s f rest)
  | .looped =>
    some (if s.handledSigintOnce then { s with frames := rest }
      else raiseMain main true { s with handledSigintOnce := true })

variable (main : θ) (callbacks : τ → ℕ)

/-- A thread is not at its code while it runs a signal handler. -/
def State.handles (main k : θ) (s : State θ τ) : Bool := k = main && !s.frames.isEmpty

def step (s : State θ τ) : Action θ τ → Option (State θ τ)
  | .execute k t => if s.pc k = .idle ∧ s.handles main k = false then some (s.setPc k (.acquiring t)) else none
  | .state k t =>
    if s.pc k = .idle ∧ s.handles main k = false then some (s.setPc k (.state .acquiring t)) else none
  | .step k => if s.handles main k then none else codeStep callbacks k s
  | .raise k => if s.handles main k then none else some (s.raiseIn k false)
  | .finish e passed =>
    if s.executions[e]?.any (fun x ↦ .start ∈ x.calls ∧ x.done = false) then
      some { s with executions := s.executions.modify e fun x ↦ { x with done := true, passed := passed } }
    else none
  | .sigint => some { s with frames := { since := s.aborts.length } :: s.frames }
  | .handler =>
    match s.frames with
    | [] => none
    | f :: rest => handlerStep main s f rest

end Model

/-! ## The locks -/

/-- The test whose lock a call of `handle_sig_int` holds. -/
def Frame.held {τ : Type} (f : Frame τ) : Option τ :=
  match f.pc with
  | .aborting p t _ _ => if p.locked then some t else none
  | _ => none

/-- A lock is held by those who are inside. -/
structure LockInv {θ τ : Type} (lock : τ → Option (Holder θ)) (pc : θ → Pc τ) (frames : List (Frame τ)) :
    Prop where
  code : ∀ t k, lock t = some (.code k) ↔ (pc k).held = some t
  handler : ∀ t, lock t = some .handler ↔ t ∈ frames.filterMap Frame.held
  nodup : (frames.filterMap Frame.held).Nodup

section Locks

variable {θ τ : Type} [DecidableEq θ] [DecidableEq τ] {lock : τ → Option (Holder θ)} {pc : θ → Pc τ}
  {frames frames' : List (Frame τ)} {k : θ} {pc' : Pc τ} {t : τ}

namespace LockInv

omit [DecidableEq τ] in
theorem setPc (h : LockInv lock pc frames) (hheld : pc'.held = (pc k).held) :
    LockInv lock (Function.update pc k pc') frames where
  code t j := by
    by_cases hj : j = k
    · subst hj
      rw [Function.update_self, hheld]
      exact h.code t j
    · rw [Function.update_of_ne hj]
      exact h.code t j
  handler := h.handler
  nodup := h.nodup

theorem acquire (h : LockInv lock pc frames) (hfree : lock t = none) (hold : (pc k).held = none)
    (hheld : pc'.held = some t) :
    LockInv (Function.update lock t (some (.code k))) (Function.update pc k pc') frames where
  code u j := by
    by_cases hu : u = t
    · subst hu
      rw [Function.update_self]
      by_cases hj : j = k
      · simp [hj, hheld]
      · have hno := (h.code u j).not.mp (by simp [hfree])
        simp [Function.update_of_ne hj, hno, Ne.symm hj]
    · rw [Function.update_of_ne hu, h.code]
      by_cases hj : j = k
      · simp [hj, hheld, hold, Ne.symm hu]
      · rw [Function.update_of_ne hj]
  handler u := by
    by_cases hu : u = t
    · subst hu
      have hno := (h.handler u).not.mp (by simp [hfree])
      simp [hno]
    · rw [Function.update_of_ne hu, h.handler]
  nodup := h.nodup

theorem release (h : LockInv lock pc frames) (hold : (pc k).held = some t) (hheld : pc'.held = none) :
    LockInv (Function.update lock t none) (Function.update pc k pc') frames where
  code u j := by
    have hlock := (h.code t k).mpr hold
    by_cases hj : j = k
    · subst hj
      by_cases hu : u = t
      · simp [hu, hheld]
      · have hno := (h.code u j).not.mpr (by simp [hold, Ne.symm hu])
        simp [Function.update_of_ne hu, hno, hheld]
    · rw [Function.update_of_ne hj, ← h.code]
      by_cases hu : u = t
      · subst hu
        simp [hlock, Ne.symm hj]
      · rw [Function.update_of_ne hu]
  handler u := by
    by_cases hu : u = t
    · subst hu
      have hno := (h.handler u).not.mp (by simp [(h.code u k).mpr hold])
      simp [hno]
    · rw [Function.update_of_ne hu, h.handler]
  nodup := h.nodup

omit [DecidableEq θ] [DecidableEq τ] in
theorem setFrames (h : LockInv lock pc frames)
    (hheld : frames'.filterMap Frame.held = frames.filterMap Frame.held) : LockInv lock pc frames' where
  code := h.code
  handler t := by rw [hheld]; exact h.handler t
  nodup := by rw [hheld]; exact h.nodup

omit [DecidableEq θ] in
theorem acquireFrame (h : LockInv lock pc frames) (hfree : lock t = none)
    (hheld : frames'.filterMap Frame.held = t :: frames.filterMap Frame.held) :
    LockInv (Function.update lock t (some .handler)) pc frames' where
  code u j := by
    by_cases hu : u = t
    · subst hu
      have hno := (h.code u j).not.mp (by simp [hfree])
      simp [hno]
    · rw [Function.update_of_ne hu, h.code]
  handler u := by
    by_cases hu : u = t
    · simp [hu, hheld]
    · rw [Function.update_of_ne hu, h.handler, hheld]
      simp [hu]
  nodup := by
    rw [hheld]
    exact List.nodup_cons.mpr ⟨(h.handler t).not.mp (by simp [hfree]), h.nodup⟩

omit [DecidableEq θ] in
theorem releaseFrame (h : LockInv lock pc frames)
    (hheld : frames.filterMap Frame.held = t :: frames'.filterMap Frame.held) :
    LockInv (Function.update lock t none) pc frames' where
  code u j := by
    by_cases hu : u = t
    · subst hu
      have hlock := (h.handler u).mpr (by simp [hheld])
      have hno := (h.code u j).not.mp (by simp [hlock])
      simp [hno]
    · rw [Function.update_of_ne hu, h.code]
  handler u := by
    have hnodup := h.nodup
    rw [hheld, List.nodup_cons] at hnodup
    by_cases hu : u = t
    · simp [hu, hnodup.1]
    · rw [Function.update_of_ne hu, h.handler, hheld]
      simp [hu]
  nodup := by
    have hnodup := h.nodup
    rw [hheld, List.nodup_cons] at hnodup
    exact hnodup.2

omit [DecidableEq τ] in
/-- All calls of `handle_sig_int` are over. -/
theorem dropFrames (h : LockInv lock pc frames) :
    LockInv (fun t ↦ if lock t = some .handler then none else lock t) pc [] where
  code t j := by
    rw [← h.code]
    by_cases hlock : lock t = some .handler <;> simp [hlock]
  handler t := by
    by_cases hlock : lock t = some .handler <;> simp [hlock]
  nodup := List.nodup_nil

end LockInv

variable {s s' : State θ τ}

/-- The locks are as they should be. -/
def State.Locked (s : State θ τ) : Prop := LockInv s.lock s.pc s.frames

theorem locked_raiseIn (hs : s.Locked) (k : θ) (keyboard : Bool) : (s.raiseIn k keyboard).Locked := by
  have hraised : ((s.pc k).raised keyboard).held = none := Pc.held_raised keyboard (s.pc k)
  unfold State.raiseIn
  cases hheld : (s.pc k).held with
  | none => exact LockInv.setPc hs (hraised.trans hheld.symm)
  | some t => exact LockInv.release hs hheld hraised

theorem locked_raiseMain (hs : s.Locked) (main : θ) (keyboard : Bool) : (raiseMain main keyboard s).Locked :=
  locked_raiseIn (s := { s with frames := [], lock := fun t ↦ if s.lock t = some .handler then none else s.lock t })
    (LockInv.dropFrames hs) main keyboard

omit [DecidableEq θ] in
theorem sectionStep_cases {abort : Bool} {h : Holder θ} {p : Section} {r : Result θ τ}
    (hstep : sectionStep abort h t s p = some r) :
    (p = .acquiring ∧ s.lock t = none ∧ r = .next .testing (s.setLock t (some h))) ∨
      (p = .releasing ∧ r = .finished (s.setLock t none)) ∨
      (p.locked = true ∧ s.executor t = none ∧ (r = .raised ∨ r = .next .releasing s)) ∨
      ∃ e, p.locked = true ∧ s.executor t = some e ∧
        (r = .next .releasing { s with aborts := s.aborts ++ [e] } ∨
          ∃ p', p'.locked = true ∧ (abort = true → p' ≠ .releasing) ∧ r = .next p' s) := by
  cases p with
  | acquiring =>
      simp only [sectionStep, Option.ite_none_right_eq_some, Option.some.injEq] at hstep
      exact .inl ⟨rfl, hstep.1, hstep.2.symm⟩
  | testing =>
      obtain rfl := Option.some.inj hstep
      cases he : s.executor t with
      | none => exact .inr (.inr (.inl ⟨rfl, rfl, .inr rfl⟩))
      | some e => exact .inr (.inr (.inr ⟨e, rfl, rfl, .inr ⟨.reading, rfl, by simp, by simp⟩⟩))
  | reading =>
      obtain rfl := Option.some.inj hstep
      cases he : s.executor t with
      | none => exact .inr (.inr (.inl ⟨rfl, rfl, .inl rfl⟩))
      | some e =>
          refine .inr (.inr (.inr ⟨e, rfl, rfl, .inr ⟨if abort then .aborting else .releasing, ?_, ?_, by simp⟩⟩))
          · cases abort <;> rfl
          · rintro rfl
            simp
  | aborting =>
      simp only [sectionStep] at hstep
      cases he : s.executor t with
      | none =>
          rw [he] at hstep
          exact .inr (.inr (.inl ⟨rfl, rfl, .inl (Option.some.inj hstep).symm⟩))
      | some e =>
          rw [he] at hstep
          exact .inr (.inr (.inr ⟨e, rfl, rfl, .inl (Option.some.inj hstep).symm⟩))
  | releasing => exact .inr (.inl ⟨rfl, (Option.some.inj hstep).symm⟩)

/-- A step of the code of a thread in a section. -/
theorem locked_resume {abort : Bool} {p : Section} {r : Result θ τ} (hs : s.Locked) (hpc : s.pc k = .state p t)
    (h : sectionStep abort (.code k) t s p = some r) : (r.resume k t s).Locked := by
  have hheld : (s.pc k).held = if p.locked then some t else none := by rw [hpc, Pc.held]
  obtain ⟨rfl, hfree, rfl⟩ | ⟨rfl, rfl⟩ | ⟨hp, -, rfl | rfl⟩ | ⟨e, hp, -, rfl | ⟨p', hp', -, rfl⟩⟩ :=
    sectionStep_cases h
  · exact LockInv.acquire hs hfree hheld rfl
  · exact LockInv.release hs hheld rfl
  · exact locked_raiseIn hs k false
  · exact LockInv.setPc hs (by rw [hheld, hp]; rfl)
  · exact LockInv.setPc hs (by rw [hheld, hp]; rfl)
  · exact LockInv.setPc hs (by rw [hheld, hp, Pc.held, hp'])

/-- A step of `handle_sig_int` in a section. -/
theorem locked_handle {abort : Bool} {main : θ} {f : Frame τ} {rest : List (Frame τ)} {i n : ℕ} {p : Section}
    {r : Result θ τ} (hs : s.Locked) (hframes : s.frames = f :: rest) (hf : f.pc = .aborting p t i n)
    (h : sectionStep abort .handler t s p = some r) : (r.handle main t i n s f rest).Locked := by
  have hheld : f.held = if p.locked then some t else none := by rw [Frame.held, hf]
  have hmap : s.frames.filterMap Frame.held =
      (if p.locked then some t else none).toList ++ rest.filterMap Frame.held := by
    rw [hframes, List.filterMap_cons, hheld]
    split_ifs <;> rfl
  obtain ⟨rfl, hfree, rfl⟩ | ⟨rfl, rfl⟩ | ⟨hp, -, rfl | rfl⟩ | ⟨e, hp, -, rfl | ⟨p', hp', -, rfl⟩⟩ :=
    sectionStep_cases h
  · exact LockInv.acquireFrame hs hfree (by rw [hmap]; rfl)
  · exact LockInv.releaseFrame hs (by rw [hmap]; rfl)
  · exact locked_raiseMain hs main false
  · exact LockInv.setFrames hs (by rw [hmap, hp]; rfl)
  · exact LockInv.setFrames hs (by rw [hmap, hp]; rfl)
  · have hnext : Frame.held { f with pc := .aborting p' t i n } = some t := by simp [Frame.held, hp']
    refine LockInv.setFrames hs ?_
    rw [hmap, hp, Result.handle, List.filterMap_cons, hnext]
    rfl

theorem locked_withExecutor {t : τ} {f : ℕ → Option (State θ τ)} (hs : s.Locked)
    (h : withExecutor k t s f = some s') (hf : ∀ e, f e = some s' → s'.Locked) : s'.Locked := by
  unfold withExecutor at h
  split at h
  · obtain rfl := Option.some.inj h
    exact locked_raiseIn hs k false
  · exact hf _ h

variable {callbacks : τ → ℕ}

theorem locked_stageStep {e : ℕ} {raised : Bool} {p : Stage} (hs : s.Locked) (hpc : s.pc k = .owning p t e raised)
    (h : stageStep callbacks k t e raised s p = some s') : s'.Locked := by
  have hheld : (s.pc k).held = if p.locked then some t else none := by rw [hpc, Pc.held]
  cases p with
  | registering =>
      obtain rfl := Option.some.inj h
      exact LockInv.setPc hs hheld.symm
  | starting =>
      refine locked_withExecutor hs h fun e' he' ↦ ?_
      obtain rfl := Option.some.inj he'
      exact LockInv.setPc hs hheld.symm
  | unlocking =>
      obtain rfl := Option.some.inj h
      exact LockInv.release hs hheld rfl
  | started =>
      obtain rfl := Option.some.inj h
      exact LockInv.setPc hs hheld.symm
  | waiting | interrupted | closing =>
      refine locked_withExecutor hs h fun e' he' ↦ ?_
      simp only [Option.ite_none_right_eq_some, Option.some.injEq] at he'
      obtain ⟨-, rfl⟩ := he'
      exact LockInv.setPc hs hheld.symm
  | finalizing =>
      refine locked_withExecutor hs h fun e' he' ↦ ?_
      obtain rfl := Option.some.inj he'
      exact LockInv.setPc hs hheld.symm
  | outputting n =>
      obtain rfl := Option.some.inj h
      split
      · exact LockInv.setPc hs hheld.symm
      · exact LockInv.setPc hs hheld.symm
  | deleting =>
      obtain rfl := Option.some.inj h
      split
      · exact LockInv.setPc hs hheld.symm
      · exact locked_raiseIn hs k false
  | clearing =>
      obtain rfl := Option.some.inj h
      cases raised
      · exact LockInv.setPc hs hheld.symm
      · exact LockInv.setPc hs hheld.symm

theorem locked_codeStep (hs : s.Locked) (h : codeStep callbacks k s = some s') : s'.Locked := by
  unfold codeStep at h
  cases hpc : s.pc k with
  | idle => simp [hpc] at h
  | state p t =>
      simp only [hpc, Option.map_eq_some_iff] at h
      obtain ⟨r, hr, rfl⟩ := h
      exact locked_resume hs hpc hr
  | acquiring t =>
      simp only [hpc, Option.ite_none_right_eq_some, Option.some.injEq] at h
      obtain ⟨hfree, rfl⟩ := h
      have hheld : (s.pc k).held = none := by rw [hpc]; rfl
      exact LockInv.acquire hs hfree hheld rfl
  | checking t =>
      simp only [hpc, Option.some.injEq] at h
      subst h
      split
      · exact LockInv.setPc hs (by rw [hpc]; rfl)
      · exact locked_raiseIn hs k false
  | creating t =>
      simp only [hpc, Option.some.injEq] at h
      subst h
      have hheld : (s.pc k).held = some t := by rw [hpc]; rfl
      exact LockInv.setPc hs hheld.symm
  | owning p t e raised =>
      simp only [hpc] at h
      exact locked_stageStep hs hpc h

theorem locked_handlerStep {main : θ} {f : Frame τ} {rest : List (Frame τ)} (hs : s.Locked)
    (hframes : s.frames = f :: rest) (h : handlerStep main s f rest = some s') : s'.Locked := by
  have hnext {g : Frame τ} (hg : g.held = f.held) : LockInv s.lock s.pc (g :: rest) :=
    LockInv.setFrames hs (by rw [hframes, List.filterMap_cons, List.filterMap_cons, hg])
  unfold handlerStep at h
  cases hf : f.pc with
  | entered =>
      simp only [hf, Option.some.injEq] at h
      subst h
      split
      · exact locked_raiseMain hs main true
      · exact hnext (by rw [Frame.held, Frame.held, hf])
  | iterating i n =>
      simp only [hf, Option.some.injEq] at h
      subst h
      split
      · exact locked_raiseMain hs main false
      · split
        · exact hnext (by rw [Frame.held, Frame.held, hf])
        · exact hnext (by rw [Frame.held, Frame.held, hf]; rfl)
  | aborting p t i n =>
      simp only [hf, Option.map_eq_some_iff] at h
      obtain ⟨r, hr, rfl⟩ := h
      exact locked_handle hs hframes hf hr
  | looped =>
      simp only [hf, Option.some.injEq] at h
      subst h
      split
      · refine LockInv.setFrames hs ?_
        rw [hframes, List.filterMap_cons, Frame.held, hf]
      · exact locked_raiseMain (s := { s with handledSigintOnce := true }) hs main true

theorem locked_step {main : θ} {a : Action θ τ} (hs : s.Locked) (h : step main callbacks s a = some s') :
    s'.Locked := by
  cases a with
  | execute k t | state k t =>
      simp only [step, Option.ite_none_right_eq_some, Option.some.injEq] at h
      obtain ⟨⟨hidle, -⟩, rfl⟩ := h
      exact LockInv.setPc hs (by rw [hidle]; rfl)
  | step k =>
      simp only [step, Option.ite_none_left_eq_some] at h
      exact locked_codeStep hs h.2
  | raise k =>
      simp only [step, Option.ite_none_left_eq_some, Option.some.injEq] at h
      obtain ⟨-, rfl⟩ := h
      exact locked_raiseIn hs k false
  | finish e passed =>
      simp only [step, Option.ite_none_right_eq_some, Option.some.injEq] at h
      obtain ⟨-, rfl⟩ := h
      exact hs
  | sigint =>
      obtain rfl := Option.some.inj h
      exact LockInv.setFrames hs rfl
  | handler =>
      simp only [step] at h
      split at h
      · cases h
      · rename_i f rest hframes
        exact locked_handlerStep hs hframes h

end Locks

end OpenHtf.TestExecution
