import Mathlib.Logic.Function.Basic
import OpenHtf.Lib.Interleaving

/-!
# Subscribable state

`util.SubscribableStateMixin` on one object, with any number of threads that
mutate its state and call `notify_update`, and of threads that call
`asdict_with_event` or `PlugManager.wait_for_plug_update`.  Every access to the
state and every operation on the lock, the event set or an event is one step.
-/

set_option autoImplicit false

namespace OpenHtf.SubscribableState

/-- An event that was added to the event set when so many updates were complete. -/
structure Ticket where
  event : ℕ
  registeredAt : ℕ
  deriving DecidableEq

inductive Call (Value : Type) where
  | asdictWithEvent
  | waitForPlugUpdate (remoteState : List Value)

/-- Where a thread is in `notify_update`: with events still to set, or with the
event set cleared and the lock still held. -/
inductive UpdaterPc where
  | idle
  | setting (rest : List ℕ)
  | cleared

/-- Where a thread is in `asdict_with_event`: before the lock, inside it before
and after the event is added, and in `_asdict`; the last two are the rest of
`wait_for_plug_update`. -/
inductive WatcherPc (κ Value : Type) where
  | idle
  | made (call : Call Value) (event : ℕ)
  | locked (call : Call Value) (event : ℕ)
  | added (call : Call Value) (t : Ticket)
  | reading (call : Call Value) (t : Ticket) (dict : List Value) (rest : List κ)
  | waiting (remoteState : List Value) (t : Ticket) (dict : List Value)
  | rereading (remoteState : List Value) (t : Ticket) (dict new : List Value) (rest : List κ)

/-- A return of `wait_for_plug_update`: the event and the dict that it had got,
the count of updates complete by then, and what it returned. -/
structure Return (Value : Type) where
  remoteState : List Value
  ticket : Ticket
  dict : List Value
  updates : ℕ
  result : Option (List Value)

/-- `updates` are the states in which a `notify_update` completed, in order, and
`returned` what the calls of `asdict_with_event` have returned. -/
structure State (υ ω κ Value : Type) where
  cells : κ → Value
  lock : Option (υ ⊕ ω) := none
  updateEvents : List ℕ := []
  isSet : ℕ → Bool := fun _ ↦ false
  eventsMade : ℕ := 0
  updater : υ → UpdaterPc := fun _ ↦ .idle
  watcher : ω → WatcherPc κ Value := fun _ ↦ .idle
  updates : List (List Value) := []
  returned : List (Ticket × List Value) := []
  returns : List (Return Value) := []

inductive Action (υ ω κ Value : Type) where
  | mutate (c : κ) (v : Value)
  | notifyUpdate (u : υ)
  | setEvent (u : υ) (event : ℕ)
  | clearEvents (u : υ)
  | complete (u : υ)
  | call (w : ω) (call : Call Value)
  | watch (w : ω)
  | timeout (w : ω)

variable {υ ω κ Value : Type}

/-- The event that a thread holds on to. -/
def WatcherPc.ticket : WatcherPc κ Value → Option Ticket
  | added _ t | reading _ t _ _ | waiting _ t _ | rereading _ t _ _ _ => some t
  | _ => none

/-- Somebody holds the event: a thread in one of the calls, or whoever called
`asdict_with_event`. -/
def State.Holds (s : State υ ω κ Value) (t : Ticket) : Prop :=
  (∃ w, (s.watcher w).ticket = some t) ∨ ∃ dict, (t, dict) ∈ s.returned

section Definitions

variable [DecidableEq υ] [DecidableEq ω] [DecidableEq κ] [DecidableEq Value]

def State.setWatcher (s : State υ ω κ Value) (w : ω) (pc : WatcherPc κ Value) :
    State υ ω κ Value := { s with watcher := Function.update s.watcher w pc }

def State.setUpdater (s : State υ ω κ Value) (u : υ) (pc : UpdaterPc) : State υ ω κ Value :=
  { s with updater := Function.update s.updater u pc }

/-- The end of `wait_for_plug_update`. -/
def State.returnUpdate (s : State υ ω κ Value) (w : ω) (remoteState : List Value) (t : Ticket)
    (dict : List Value) (result : Option (List Value)) : State υ ω κ Value :=
  let r : Return Value := ⟨remoteState, t, dict, s.updates.length, result⟩
  { s with returns := s.returns ++ [r] }.setWatcher w .idle

/-- The next step of a thread in `asdict_with_event` or `wait_for_plug_update`;
`reads` is the order in which `_asdict` reads the state. -/
def watch (reads : List κ) (s : State υ ω κ Value) (w : ω) : Option (State υ ω κ Value) :=
  match s.watcher w with
  | .idle => none
  | .made call event =>
    if s.lock = none then some ({ s with lock := some (.inr w) }.setWatcher w (.locked call event))
    else none
  | .locked call event =>
    some ({ s with updateEvents := s.updateEvents ++ [event] }.setWatcher w
      (.added call ⟨event, s.updates.length⟩))
  | .added call t => some ({ s with lock := none }.setWatcher w (.reading call t [] reads))
  | .reading call t dict (c :: rest) =>
    some (s.setWatcher w (.reading call t (dict ++ [s.cells c]) rest))
  | .reading .asdictWithEvent t dict [] =>
    some ({ s with returned := s.returned ++ [(t, dict)] }.setWatcher w .idle)
  | .reading (.waitForPlugUpdate remoteState) t dict [] =>
    if dict ≠ remoteState then some (s.returnUpdate w remoteState t dict (some dict))
    else some (s.setWatcher w (.waiting remoteState t dict))
  | .waiting remoteState t dict =>
    if s.isSet t.event then some (s.setWatcher w (.rereading remoteState t dict [] reads)) else none
  | .rereading remoteState t dict new (c :: rest) =>
    some (s.setWatcher w (.rereading remoteState t dict (new ++ [s.cells c]) rest))
  | .rereading remoteState t dict new [] =>
    some (s.returnUpdate w remoteState t dict (some new))

/-- Any thread may mutate the state at any time.  The events are set in any
order; `timeout` is the end of a wait for an event that is not set. -/
def step (reads : List κ) (s : State υ ω κ Value) : Action υ ω κ Value → Option (State υ ω κ Value)
  | .mutate c v => some { s with cells := Function.update s.cells c v }
  | .notifyUpdate u =>
    match s.updater u with
    | .idle =>
      if s.lock = none then
        some ({ s with lock := some (.inl u) }.setUpdater u (.setting s.updateEvents))
      else none
    | _ => none
  | .setEvent u event =>
    match s.updater u with
    | .setting rest =>
      if event ∈ rest then
        some ({ s with isSet := Function.update s.isSet event true }.setUpdater u
          (.setting (rest.erase event)))
      else none
    | _ => none
  | .clearEvents u =>
    match s.updater u with
    | .setting [] => some ({ s with updateEvents := [] }.setUpdater u .cleared)
    | _ => none
  | .complete u =>
    match s.updater u with
    | .cleared =>
      some ({ s with lock := none, updates := s.updates ++ [reads.map s.cells] }.setUpdater u .idle)
    | _ => none
  | .call w call =>
    match s.watcher w with
    | .idle => some ({ s with eventsMade := s.eventsMade + 1 }.setWatcher w (.made call s.eventsMade))
    | _ => none
  | .watch w => watch reads s w
  | .timeout w =>
    match s.watcher w with
    | .waiting remoteState t dict =>
      if s.isSet t.event then none else some (s.returnUpdate w remoteState t dict none)
    | _ => none

end Definitions

/-! ## Updates that are missed -/

/-- Whoever got a dict and an event from `asdict_with_event` finds the event set
if an update has completed since with another state.  `wait_for_plug_update`
returns None only if the dict was the remote state and no update had completed
since the event was registered, which is before the dict was read. -/
structure MissesNoUpdate (s : State υ ω κ Value) : Prop where
  returned : ∀ t dict, (t, dict) ∈ s.returned → ∀ state ∈ s.updates.drop t.registeredAt,
    state ≠ dict → s.isSet t.event = true
  none : ∀ r ∈ s.returns, r.result = none →
    r.dict = r.remoteState ∧ (s.updates.take r.updates).drop r.ticket.registeredAt = []

/-! ## The invariant -/

def UpdaterPc.Locks : UpdaterPc → Prop
  | idle => False
  | _ => True

def WatcherPc.Locks : WatcherPc κ Value → Prop
  | locked _ _ | added _ _ => True
  | _ => False

/-- The thread in `notify_update` has not missed an event that is not set. -/
def UpdaterPc.Reaches (event : ℕ) : UpdaterPc → Prop
  | idle => True
  | setting rest => event ∈ rest
  | cleared => False

/-- The event is set by every update that completes. -/
structure Registered (s : State υ ω κ Value) (t : Ticket) : Prop where
  le : t.registeredAt ≤ s.updates.length
  pending : s.isSet t.event = true ∨
    t.event ∈ s.updateEvents ∧ ∀ u, (s.updater u).Reaches t.event
  isSet : t.registeredAt < s.updates.length → s.isSet t.event = true

structure Inv (s : State υ ω κ Value) : Prop where
  updaterLocks : ∀ u, (s.updater u).Locks ↔ s.lock = some (.inl u)
  watcherLocks : ∀ w, (s.watcher w).Locks ↔ s.lock = some (.inr w)
  held : ∀ t, s.Holds t → Registered s t
  same : ∀ w remoteState t dict, s.watcher w = .waiting remoteState t dict → dict = remoteState
  none : ∀ r ∈ s.returns, r.result = none →
    r.dict = r.remoteState ∧ r.updates ≤ r.ticket.registeredAt

section Steps

variable {s : State υ ω κ Value} {reads : List κ}

theorem inv_initial (cells : κ → Value) : Inv ({ cells := cells } : State υ ω κ Value) where
  updaterLocks _ := ⟨False.elim, nofun⟩
  watcherLocks _ := ⟨False.elim, nofun⟩
  held t h := by
    rcases h with ⟨_, h⟩ | ⟨_, h⟩
    · cases h
    · cases h
  same _ _ _ _ h := by cases h
  none _ h := by cases h

/-- Without the lock a thread is not in `notify_update`, and holds nothing up. -/
theorem Inv.reaches (h : Inv s) {u : υ} (hlock : s.lock ≠ some (.inl u)) (event : ℕ) :
    (s.updater u).Reaches event := by
  have hfree := mt (h.updaterLocks u).mp hlock
  cases hpc : s.updater u with
  | idle => trivial
  | setting rest => simp [hpc, UpdaterPc.Locks] at hfree
  | cleared => simp [hpc, UpdaterPc.Locks] at hfree

theorem Inv.missesNoUpdate (h : Inv s) : MissesNoUpdate s where
  returned t dict hmem state hstate _ := by
    refine (h.held t (.inr ⟨dict, hmem⟩)).isSet ?_
    have hpos := List.length_pos_of_mem hstate
    rw [List.length_drop] at hpos
    omega
  none r hr hres := by
    obtain ⟨hsame, hle⟩ := h.none r hr hres
    refine ⟨hsame, ?_⟩
    rw [List.drop_eq_nil_iff, List.length_take]
    omega

/-! ### Threads that watch -/

theorem Inv.watcher_free (h : Inv s) {w : ω} (hlock : s.lock ≠ some (.inr w)) :
    ¬(s.watcher w).Locks := mt (h.watcherLocks w).mp hlock

theorem inv_returned (h : Inv s) {t : Ticket} (ht : s.Holds t) (dict : List Value) :
    Inv { s with returned := s.returned ++ [(t, dict)] } where
  updaterLocks := h.updaterLocks
  watcherLocks := h.watcherLocks
  held t' ht' := by
    have hold : s.Holds t' := by
      rcases ht' with ht' | ⟨dict', ht'⟩
      · exact .inl ht'
      · rcases List.mem_append.mp ht' with ht' | ht'
        · exact .inr ⟨dict', ht'⟩
        · obtain ⟨rfl, -⟩ : t' = t ∧ dict' = dict := by simpa using ht'
          exact ht
    obtain ⟨hle, hpending, hset⟩ := h.held t' hold
    exact ⟨hle, hpending, hset⟩
  same := h.same
  none := h.none

section Watchers

variable [DecidableEq ω]

theorem holds_setWatcher {w : ω} {pc : WatcherPc κ Value} {t : Ticket}
    (h : (s.setWatcher w pc).Holds t) : pc.ticket = some t ∨ s.Holds t := by
  rcases h with ⟨w', h⟩ | h
  · by_cases hw : w' = w
    · subst hw
      exact .inl (by simpa [State.setWatcher] using h)
    · exact .inr (.inl ⟨w', by simpa [State.setWatcher, hw] using h⟩)
  · exact .inr (.inr h)

theorem same_setWatcher (h : Inv s) {s₁ : State υ ω κ Value} (hwatcher : s₁.watcher = s.watcher) {w : ω}
    {pc : WatcherPc κ Value}
    (hsame : ∀ remoteState t dict, pc = .waiting remoteState t dict → dict = remoteState)
    (w' : ω) (remoteState : List Value) (t : Ticket) (dict : List Value)
    (hpc : (s₁.setWatcher w pc).watcher w' = .waiting remoteState t dict) : dict = remoteState := by
  by_cases hw : w' = w
  · subst hw
    exact hsame remoteState t dict (by simpa [State.setWatcher] using hpc)
  · exact h.same w' remoteState t dict (by simpa [State.setWatcher, hw, hwatcher] using hpc)

/-- A thread outside the lock goes on outside the lock. -/
theorem inv_setWatcher (h : Inv s) {w : ω} {pc : WatcherPc κ Value} (hold : ¬(s.watcher w).Locks)
    (hnew : ¬pc.Locks) (hticket : ∀ t, pc.ticket = some t → s.Holds t)
    (hsame : ∀ remoteState t dict, pc = .waiting remoteState t dict → dict = remoteState) :
    Inv (s.setWatcher w pc) where
  updaterLocks := h.updaterLocks
  watcherLocks w' := by
    by_cases hw : w' = w
    · subst hw
      have hlock := mt (h.watcherLocks w').mpr hold
      simpa [State.setWatcher, hnew] using hlock
    · simpa [State.setWatcher, hw] using h.watcherLocks w'
  held t ht := by
    obtain ⟨hle, hpending, hset⟩ : Registered s t := by
      rcases holds_setWatcher ht with ht | ht
      · exact h.held t (hticket t ht)
      · exact h.held t ht
    exact ⟨hle, hpending, hset⟩
  same := same_setWatcher h rfl hsame
  none := h.none

theorem inv_returnUpdate (h : Inv s) {w : ω} (hold : ¬(s.watcher w).Locks)
    {remoteState dict : List Value} {t : Ticket} {result : Option (List Value)}
    (hnone : result = none → dict = remoteState ∧ s.updates.length ≤ t.registeredAt) :
    Inv (s.returnUpdate w remoteState t dict result) := by
  let r : Return Value := ⟨remoteState, t, dict, s.updates.length, result⟩
  have hinv : Inv { s with returns := s.returns ++ [r] } := by
    refine ⟨h.updaterLocks, h.watcherLocks, fun t' ht' ↦ ?_, h.same, fun r' hr hres ↦ ?_⟩
    · obtain ⟨hle, hpending, hset⟩ := h.held t' ht'
      exact ⟨hle, hpending, hset⟩
    · rcases List.mem_append.mp hr with hr | hr
      · exact h.none r' hr hres
      · obtain rfl := List.mem_singleton.mp hr
        exact hnone hres
  have hidle : ¬(WatcherPc.idle : WatcherPc κ Value).Locks := by simp [WatcherPc.Locks]
  exact inv_setWatcher hinv hold hidle (by simp [WatcherPc.ticket]) (by simp)

theorem inv_lock (h : Inv s) {w : ω} {call : Call Value} {event : ℕ} (hlock : s.lock = none) :
    Inv ({ s with lock := some (.inr w) }.setWatcher w (.locked call event)) where
  updaterLocks u := by
    have hfree := mt (h.updaterLocks u).mp (by simp [hlock])
    exact ⟨fun hu ↦ absurd hu hfree, nofun⟩
  watcherLocks w' := by
    by_cases hw : w' = w
    · subst hw
      simp [State.setWatcher, WatcherPc.Locks]
    · have hfree := h.watcher_free (w := w') (by simp [hlock])
      simpa [State.setWatcher, hw, Ne.symm hw] using hfree
  held t ht := by
    rcases holds_setWatcher ht with ht | ht
    · cases ht
    · obtain ⟨hle, hpending, hset⟩ := h.held t ht
      exact ⟨hle, hpending, hset⟩
  same := same_setWatcher h rfl (by simp)
  none := h.none

/-- An event that is added while no update is in progress. -/
theorem inv_add (h : Inv s) {w : ω} {call : Call Value} {event : ℕ}
    (hw : s.watcher w = .locked call event) :
    Inv ({ s with updateEvents := s.updateEvents ++ [event] }.setWatcher w
      (.added call ⟨event, s.updates.length⟩)) where
  updaterLocks := h.updaterLocks
  watcherLocks w' := by
    by_cases hww : w' = w
    · subst hww
      simpa [State.setWatcher, WatcherPc.Locks, hw] using h.watcherLocks w'
    · simpa [State.setWatcher, hww] using h.watcherLocks w'
  held t ht := by
    have hlock : s.lock = some (.inr w) := (h.watcherLocks w).mp (by simp [hw, WatcherPc.Locks])
    rcases holds_setWatcher ht with ht | ht
    · obtain rfl := Option.some.inj ht
      refine ⟨Nat.le_refl _, .inr ⟨by simp [State.setWatcher], fun u ↦ ?_⟩, fun hlt ↦ ?_⟩
      · exact h.reaches (by simp [hlock]) event
      · exact absurd hlt (Nat.lt_irrefl _)
    · obtain ⟨hle, hpending, hset⟩ := h.held t ht
      refine ⟨hle, ?_, hset⟩
      exact hpending.imp_right fun hp ↦ ⟨List.mem_append_left _ hp.1, hp.2⟩
  same := same_setWatcher h rfl (by simp)
  none := h.none

theorem inv_unlock (h : Inv s) {w : ω} {call : Call Value} {t : Ticket} {rest : List κ}
    (hw : s.watcher w = .added call t) :
    Inv ({ s with lock := none }.setWatcher w (.reading call t [] rest)) where
  updaterLocks u := by
    have hlock : s.lock = some (.inr w) := (h.watcherLocks w).mp (by simp [hw, WatcherPc.Locks])
    have hfree := mt (h.updaterLocks u).mp (by simp [hlock])
    exact ⟨fun hu ↦ absurd hu hfree, nofun⟩
  watcherLocks w' := by
    have hlock : s.lock = some (.inr w) := (h.watcherLocks w).mp (by simp [hw, WatcherPc.Locks])
    by_cases hww : w' = w
    · subst hww
      simp [State.setWatcher, WatcherPc.Locks]
    · have hfree := h.watcher_free (w := w') (by simp [hlock, Ne.symm hww])
      simpa [State.setWatcher, hww] using hfree
  held t' ht' := by
    have hold : s.Holds t' := by
      rcases holds_setWatcher ht' with ht' | ht'
      · exact .inl ⟨w, by rw [hw]; exact ht'⟩
      · exact ht'
    obtain ⟨hle, hpending, hset⟩ := h.held t' hold
    exact ⟨hle, hpending, hset⟩
  same := same_setWatcher h rfl (by simp)
  none := h.none

theorem inv_watch [DecidableEq Value] (h : Inv s) {w : ω} {s' : State υ ω κ Value} (hw : watch reads s w = some s') :
    Inv s' := by
  have hholds : ∀ t, (s.watcher w).ticket = some t → s.Holds t := fun t ht ↦ .inl ⟨w, ht⟩
  unfold watch at hw
  split at hw <;> rename_i hpc <;> rw [hpc] at hholds
  · cases hw
  · split at hw
    · obtain rfl := Option.some.inj hw
      exact inv_lock h ‹_›
    · cases hw
  · obtain rfl := Option.some.inj hw
    exact inv_add h hpc
  · obtain rfl := Option.some.inj hw
    exact inv_unlock h hpc
  all_goals have hfree : ¬(s.watcher w).Locks := by simp [hpc, WatcherPc.Locks]
  · obtain rfl := Option.some.inj hw
    exact inv_setWatcher h hfree (by simp [WatcherPc.Locks]) hholds (by simp)
  · rename_i t dict
    obtain rfl := Option.some.inj hw
    refine inv_setWatcher (inv_returned h (hholds t rfl) dict) hfree ?_ ?_ ?_
    · simp [WatcherPc.Locks]
    · simp [WatcherPc.ticket]
    · simp
  · split at hw
    · obtain rfl := Option.some.inj hw
      exact inv_returnUpdate h hfree nofun
    · rename_i hsame
      obtain rfl := Option.some.inj hw
      refine inv_setWatcher h hfree (by simp [WatcherPc.Locks]) hholds fun remoteState' t' dict' heq ↦ ?_
      obtain ⟨rfl, -, rfl⟩ := WatcherPc.waiting.inj heq
      exact not_not.mp hsame
  · split at hw
    · obtain rfl := Option.some.inj hw
      exact inv_setWatcher h hfree (by simp [WatcherPc.Locks]) hholds (by simp)
    · cases hw
  · obtain rfl := Option.some.inj hw
    exact inv_setWatcher h hfree (by simp [WatcherPc.Locks]) hholds (by simp)
  · obtain rfl := Option.some.inj hw
    exact inv_returnUpdate h hfree nofun

end Watchers

/-! ### Threads that update -/

section Updaters

variable [DecidableEq υ] {u : υ}

theorem setUpdater_other {pc : UpdaterPc} {u' : υ} (h : u' ≠ u) :
    (s.setUpdater u pc).updater u' = s.updater u' := by
  simp [State.setUpdater, h]

theorem setUpdater_self {pc : UpdaterPc} : (s.setUpdater u pc).updater u = pc := by
  simp [State.setUpdater]

/-- An updater that goes on inside the lock. -/
theorem updaterLocks_setUpdater (h : Inv s) {pc : UpdaterPc} (hold : (s.updater u).Locks)
    (hnew : pc.Locks) (u' : υ) :
    ((s.setUpdater u pc).updater u').Locks ↔ s.lock = some (.inl u') := by
  by_cases hu : u' = u
  · subst hu
    rw [setUpdater_self, ← h.updaterLocks u']
    exact iff_of_true hnew hold
  · rw [setUpdater_other hu]
    exact h.updaterLocks u'

/-- What the event set and the threads do for an event that is not set yet. -/
theorem reaches_setUpdater {pc : UpdaterPc} {event : ℕ} (hnew : pc.Reaches event)
    (h : ∀ u, (s.updater u).Reaches event) (u' : υ) :
    ((s.setUpdater u pc).updater u').Reaches event := by
  by_cases hu : u' = u
  · subst hu
    rwa [setUpdater_self]
  · rw [setUpdater_other hu]
    exact h u'

theorem inv_notifyUpdate (h : Inv s) (hlock : s.lock = none) :
    Inv ({ s with lock := some (.inl u) }.setUpdater u (.setting s.updateEvents)) where
  updaterLocks u' := by
    by_cases hu : u' = u
    · subst hu
      rw [setUpdater_self]
      exact iff_of_true trivial rfl
    · have hfree := mt (h.updaterLocks u').mp (by simp [hlock])
      rw [setUpdater_other hu]
      simpa [State.setUpdater, Ne.symm hu] using hfree
  watcherLocks w := by
    have hfree := h.watcher_free (w := w) (by simp [hlock])
    simpa [State.setUpdater] using hfree
  held t ht := by
    obtain ⟨hle, hpending, hset⟩ := h.held t ht
    refine ⟨hle, hpending.imp_right fun hp ↦ ⟨hp.1, ?_⟩, hset⟩
    exact reaches_setUpdater (s := { s with lock := some (.inl u) }) hp.1 hp.2
  same := h.same
  none := h.none

theorem inv_setEvent (h : Inv s) {rest : List ℕ} {event : ℕ} (hu : s.updater u = .setting rest) :
    Inv ({ s with isSet := Function.update s.isSet event true }.setUpdater u
      (.setting (rest.erase event))) where
  updaterLocks := updaterLocks_setUpdater (s := { s with isSet := _ })
    ⟨h.updaterLocks, h.watcherLocks, h.held, h.same, h.none⟩ (by simp [hu, UpdaterPc.Locks]) trivial
  watcherLocks := h.watcherLocks
  held t ht := by
    obtain ⟨hle, hpending, hset⟩ := h.held t ht
    have hmono : s.isSet t.event = true → Function.update s.isSet event true t.event = true := by
      intro hset
      by_cases he : t.event = event
      · rw [he, Function.update_self]
      · rwa [Function.update_of_ne he]
    refine ⟨hle, ?_, fun hlt ↦ hmono (hset hlt)⟩
    rcases hpending with hp | hp
    · exact .inl (hmono hp)
    · by_cases he : t.event = event
      · exact .inl (by simp [State.setUpdater, he])
      · have hmem : t.event ∈ rest := by
          have hreaches := hp.2 u
          rwa [hu] at hreaches
        exact .inr ⟨hp.1, reaches_setUpdater (s := { s with isSet := _ })
          ((List.mem_erase_of_ne he).mpr hmem) hp.2⟩
  same := h.same
  none := h.none

/-- All the events that were registered are set when the set is cleared. -/
theorem inv_clearEvents (h : Inv s) (hu : s.updater u = .setting []) :
    Inv ({ s with updateEvents := [] }.setUpdater u .cleared) where
  updaterLocks := updaterLocks_setUpdater (s := s) h (by simp [hu, UpdaterPc.Locks]) trivial
  watcherLocks := h.watcherLocks
  held t ht := by
    obtain ⟨hle, hpending, hset⟩ := h.held t ht
    refine ⟨hle, .inl ?_, hset⟩
    rcases hpending with hp | hp
    · exact hp
    · have hreaches := hp.2 u
      rw [hu] at hreaches
      exact absurd hreaches List.not_mem_nil
  same := h.same
  none := h.none

theorem inv_complete (h : Inv s) (hu : s.updater u = .cleared) (state : List Value) :
    Inv ({ s with lock := none, updates := s.updates ++ [state] }.setUpdater u .idle) where
  updaterLocks u' := by
    have hlock : s.lock = some (.inl u) := (h.updaterLocks u).mp (by simp [hu, UpdaterPc.Locks])
    by_cases huu : u' = u
    · subst huu
      rw [setUpdater_self]
      exact iff_of_false (fun hf ↦ hf) nofun
    · have hfree := mt (h.updaterLocks u').mp (by simp [hlock, Ne.symm huu])
      rw [setUpdater_other huu]
      exact iff_of_false hfree nofun
  watcherLocks w := by
    have hlock : s.lock = some (.inl u) := (h.updaterLocks u).mp (by simp [hu, UpdaterPc.Locks])
    have hfree := h.watcher_free (w := w) (by simp [hlock])
    exact iff_of_false hfree nofun
  held t ht := by
    obtain ⟨hle, hpending, -⟩ := h.held t ht
    have hset : s.isSet t.event = true := by
      rcases hpending with hp | hp
      · exact hp
      · have hreaches := hp.2 u
        rw [hu] at hreaches
        exact hreaches.elim
    refine ⟨?_, .inl hset, fun _ ↦ hset⟩
    simp only [State.setUpdater, List.length_append, List.length_singleton]
    omega
  same := h.same
  none := h.none

end Updaters

/-! ### Every step -/

variable [DecidableEq υ] [DecidableEq ω] [DecidableEq κ] [DecidableEq Value]

theorem inv_step (h : Inv s) {a : Action υ ω κ Value} {s' : State υ ω κ Value}
    (hstep : step reads s a = some s') : Inv s' := by
  cases a with
  | mutate c v =>
      obtain rfl := Option.some.inj hstep
      refine ⟨h.updaterLocks, h.watcherLocks, fun t ht ↦ ?_, h.same, h.none⟩
      obtain ⟨hle, hpending, hset⟩ := h.held t ht
      exact ⟨hle, hpending, hset⟩
  | notifyUpdate u =>
      simp only [step] at hstep
      split at hstep
      · split at hstep
        · obtain rfl := Option.some.inj hstep
          exact inv_notifyUpdate h ‹_›
        · cases hstep
      · cases hstep
  | setEvent u event =>
      simp only [step] at hstep
      split at hstep
      · split at hstep
        · obtain rfl := Option.some.inj hstep
          exact inv_setEvent h ‹_›
        · cases hstep
      · cases hstep
  | clearEvents u =>
      simp only [step] at hstep
      split at hstep
      · obtain rfl := Option.some.inj hstep
        exact inv_clearEvents h ‹_›
      · cases hstep
  | complete u =>
      simp only [step] at hstep
      split at hstep
      · obtain rfl := Option.some.inj hstep
        exact inv_complete h ‹_› _
      · cases hstep
  | call w call =>
      simp only [step] at hstep
      split at hstep
      · rename_i hpc
        obtain rfl := Option.some.inj hstep
        have hinv : Inv { s with eventsMade := s.eventsMade + 1 } := by
          refine ⟨h.updaterLocks, h.watcherLocks, fun t ht ↦ ?_, h.same, h.none⟩
          obtain ⟨hle, hpending, hset⟩ := h.held t ht
          exact ⟨hle, hpending, hset⟩
        refine inv_setWatcher hinv ?_ ?_ ?_ ?_
        · simp [hpc, WatcherPc.Locks]
        · simp [WatcherPc.Locks]
        · simp [WatcherPc.ticket]
        · simp
      · cases hstep
  | watch w => exact inv_watch h hstep
  | timeout w =>
      simp only [step] at hstep
      split at hstep
      · rename_i remoteState t dict hpc
        split at hstep
        · cases hstep
        · rename_i hunset
          obtain rfl := Option.some.inj hstep
          refine inv_returnUpdate h (by simp [hpc, WatcherPc.Locks]) fun _ ↦ ⟨h.same _ _ _ _ hpc, ?_⟩
          have hheld := h.held t (.inl ⟨w, by rw [hpc]; rfl⟩)
          exact Nat.le_of_not_lt fun hlt ↦ hunset (hheld.isSet hlt)
      · cases hstep

end Steps

/-! ## An update during a snapshot -/

/-- A thread reads the state between the change of another thread and its
notification, and waits with what it read. -/
def notifiedWait : List (Action Unit Unit Unit ℕ) :=
  [.call () (.waitForPlugUpdate [1]), .mutate () 1, .watch (), .watch (), .watch (), .watch (),
    .watch (), .notifyUpdate (), .setEvent () 0, .clearEvents (), .complete (), .watch ()]

end OpenHtf.SubscribableState
