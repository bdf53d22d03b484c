import Mathlib.Logic.Function.Basic
import OpenHtf.Lib.Interleaving

/-!
# The station watcher

`StationWatcher._poll_for_update` on one running test, and threads that update
the test state and the plugs: each mutates a part of the state and then calls the
`notify_update` of the object it belongs to.  Every access to the state, every
addition of an event and every notification is one step.
-/

set_option autoImplicit false

namespace OpenHtf.StationWatcher

/-- The parts of the test state that `TestState.as_base_types` reads itself. -/
inductive TestCell where
  | status
  | testRecord
  | runningPhaseState
  deriving DecidableEq

/-- What is read for the dict, in one access each; plugs go by their names. -/
inductive Cell where
  | test (c : TestCell)
  | plug (name : String)
  deriving DecidableEq

/-- The objects that events are obtained from. -/
inductive Owner where
  | testState
  | plug (name : String)
  deriving DecidableEq

def Cell.owner : Cell → Owner
  | test _ => .testState
  | plug name => .plug name

/-- Where the watcher is: at the start of `_poll_for_update`, inside
`_to_dict_with_event` with cells still to read, past the callback with plugs
still to get events from, or waiting. -/
inductive Pc where
  | start
  | reading (rest : List Cell)
  | registering (rest : List String)
  | waiting
  deriving DecidableEq

/-- `updateEvents` are the `_update_events` of the objects, `isSet` tells which
events are set, `updating` which object a thread has mutated and not notified
yet.  `events` are those that the watcher has obtained in this round. -/
structure State (υ Value : Type) where
  cells : Cell → Value
  updating : υ → Option Owner := fun _ ↦ none
  updateEvents : Owner → List ℕ := fun _ ↦ []
  isSet : ℕ → Bool := fun _ ↦ false
  eventsMade : ℕ := 0
  pc : Pc := .start
  events : List (Owner × ℕ) := []
  snapshot : Cell → Value := cells
  published : Option (Cell → Value) := none

inductive Action (υ Value : Type) where
  | mutate (u : υ) (c : Cell) (v : Value)
  | notifyUpdate (u : υ)
  | watch
  | error

variable {υ Value : Type} [DecidableEq υ]

namespace State

/-- Make an event and add it to the events of an object. -/
def addEvent (o : Owner) (s : State υ Value) : State υ Value :=
  { s with
    eventsMade := s.eventsMade + 1
    updateEvents := Function.update s.updateEvents o (s.updateEvents o ++ [s.eventsMade])
    events := s.events ++ [(o, s.eventsMade)] }

/-- `SubscribableStateMixin.notify_update`. -/
def notifyUpdate (o : Owner) (s : State υ Value) : State υ Value :=
  { s with
    isSet := fun e ↦ s.isSet e || (s.updateEvents o).contains e
    updateEvents := Function.update s.updateEvents o [] }

end State

/-- The order in which `TestState.as_base_types` reads. -/
def reads (plugs : List String) : List Cell :=
  [.test .status, .test .testRecord] ++ plugs.map .plug ++ [.test .runningPhaseState]

/-- The next step of the watcher; it waits as long as none of its events is set. -/
def watch (plugs : List String) (s : State υ Value) : Option (State υ Value) :=
  match s.pc with
  | .start => some { ({ s with events := [] }).addEvent .testState with pc := .reading (reads plugs) }
  | .reading (c :: rest) =>
      some { s with snapshot := Function.update s.snapshot c (s.cells c), pc := .reading rest }
  | .reading [] => some { s with published := some s.snapshot, pc := .registering plugs }
  | .registering (name :: rest) => some { s.addEvent (.plug name) with pc := .registering rest }
  | .registering [] => some { s with pc := .waiting }
  | .waiting => if s.events.any fun oe ↦ s.isSet oe.2 then some { s with pc := .start } else none

/-- `error` is an exception in the watcher, which `run` answers with another
round. -/
def step (plugs : List String) (s : State υ Value) : Action υ Value → Option (State υ Value)
  | .mutate u c v =>
      if s.updating u = none then
        some { s with
          cells := Function.update s.cells c v
          updating := Function.update s.updating u (some c.owner) }
      else none
  | .notifyUpdate u =>
      match s.updating u with
      | some o => some { s.notifyUpdate o with updating := Function.update s.updating u none }
      | none => none
  | .watch => watch plugs s
  | .error => if s.pc = .waiting then none else some { s with pc := .start }

/-! ## At rest -/

/-- The watcher waits with none of its events set, and no update is in progress. -/
structure Quiescent (s : State υ Value) : Prop where
  waiting : s.pc = .waiting
  notSet : ∀ o e, (o, e) ∈ s.events → s.isSet e = false
  noUpdate : ∀ u, s.updating u = none

/-- What was published last is the current state. -/
def PublishesFinal (plugs : List String) (s : State υ Value) : Prop :=
  Quiescent s → ∃ d, s.published = some d ∧ (∀ c, d (.test c) = s.cells (.test c)) ∧
    ∀ name ∈ plugs, d (.plug name) = s.cells (.plug name)

/-! ## The condition -/

/-- The cell has been read in this round. -/
def Read (s : State υ Value) (c : Cell) : Prop :=
  match s.pc with
  | .start => False
  | .reading rest => c ∉ rest
  | _ => True

/-- The callback has been called in this round. -/
def Published (s : State υ Value) : Prop :=
  match s.pc with
  | .registering _ | .waiting => True
  | _ => False

/-- The event of the plug has been obtained in this round. -/
def Registered (s : State υ Value) (name : String) : Prop :=
  match s.pc with
  | .registering rest => name ∉ rest
  | .waiting => True
  | _ => False

/-- The watcher holds an event of the object that is set. -/
def Notified (s : State υ Value) (o : Owner) : Prop := ∃ e, (o, e) ∈ s.events ∧ s.isSet e = true

/-- The notification of a plug between the reading of its state and the making
of its event loses nothing. -/
def NotLost (s : State υ Value) (u : υ) (name : String) : Prop :=
  Read s (.plug name) → ¬Registered s name →
    s.snapshot (.plug name) = s.cells (.plug name) ∨
      (∃ u', u' ≠ u ∧ s.updating u' = some (.plug name)) ∨ Notified s .testState

def LosesNothing (plugs : List String) (s : State υ Value) : Action υ Value → Prop
  | .notifyUpdate u => ∀ name ∈ plugs, s.updating u = some (.plug name) → NotLost s u name
  | _ => True

/-! ## The invariant -/

/-- What keeps a cell that has been read from being forgotten. -/
def Covered (s : State υ Value) (c : Cell) : Prop :=
  s.snapshot c = s.cells c ∨ (∃ u, s.updating u = some c.owner) ∨ Notified s c.owner ∨
    Notified s .testState

structure Inv (plugs : List String) (s : State υ Value) : Prop where
  held : ∀ o e, (o, e) ∈ s.events → e ∈ s.updateEvents o ∨ s.isSet e = true
  testHeld : s.pc ≠ .start → ∃ e, (.testState, e) ∈ s.events
  plugHeld : ∀ name ∈ plugs, Registered s name → ∃ e, (.plug name, e) ∈ s.events
  testCovered : ∀ c, Read s (.test c) → Covered s (.test c)
  plugCovered : ∀ name ∈ plugs, Read s (.plug name) → Covered s (.plug name)
  published : Published s → s.published = some s.snapshot

section Steps

variable {plugs : List String} {s : State υ Value}

omit [DecidableEq υ] in
theorem inv_initial (cells : Cell → Value) : Inv plugs ({ cells := cells } : State υ Value) where
  held := nofun
  testHeld h := absurd rfl h
  plugHeld _ _ h := h.elim
  testCovered _ h := h.elim
  plugCovered _ _ h := h.elim
  published h := h.elim

theorem covered_mutate {u : υ} {c c' : Cell} {v : Value} (hu : s.updating u = none)
    (h : Covered s c') : Covered { s with
      cells := Function.update s.cells c v
      updating := Function.update s.updating u (some c.owner) } c' := by
  by_cases hc : c' = c
  · subst hc
    exact .inr (.inl ⟨u, by simp⟩)
  rcases h with h | ⟨u', hu'⟩ | h | h
  · exact .inl (by simpa [hc] using h)
  · refine .inr (.inl ⟨u', ?_⟩)
    have hne : u' ≠ u := fun heq ↦ by simp [heq, hu] at hu'
    simpa [hne] using hu'
  · exact .inr (.inr (.inl h))
  · exact .inr (.inr (.inr h))

theorem inv_mutate (h : Inv plugs s) {u : υ} (hu : s.updating u = none) (c : Cell) (v : Value) :
    Inv plugs { s with
      cells := Function.update s.cells c v
      updating := Function.update s.updating u (some c.owner) } where
  held := h.held
  testHeld := h.testHeld
  plugHeld := h.plugHeld
  testCovered c' hr := covered_mutate hu (h.testCovered c' hr)
  plugCovered name hname hr := covered_mutate hu (h.plugCovered name hname hr)
  published := h.published

/-! ### Notifications -/

omit [DecidableEq υ] in
theorem notified_mono {o o' : Owner} (h : Notified s o) : Notified (s.notifyUpdate o') o := by
  obtain ⟨e, he, hset⟩ := h
  exact ⟨e, he, by simp [State.notifyUpdate, hset]⟩

omit [DecidableEq υ] in
/-- An event that the watcher holds is set by the notification of its object. -/
theorem notified_of_held (h : Inv plugs s) {o : Owner} {e : ℕ} (he : (o, e) ∈ s.events) :
    Notified (s.notifyUpdate o) o := by
  refine ⟨e, he, ?_⟩
  rcases h.held o e he with hmem | hset
  · simp [State.notifyUpdate, hmem]
  · simp [State.notifyUpdate, hset]

/-- A cell of another object, or one that is covered otherwise. -/
theorem covered_notify {u : υ} {o : Owner} {c : Cell} (hu : s.updating u = some o)
    (h : Covered s c) (ho : c.owner = o → s.snapshot c = s.cells c ∨
      (∃ u', u' ≠ u ∧ s.updating u' = some o) ∨ Notified (s.notifyUpdate o) o ∨
      Notified s .testState) :
    Covered { s.notifyUpdate o with updating := Function.update s.updating u none } c := by
  by_cases hc : c.owner = o
  · rcases ho hc with h | ⟨u', hne, hu'⟩ | h | h
    · exact .inl h
    · exact .inr (.inl ⟨u', by simpa [hne, hc] using hu'⟩)
    · exact .inr (.inr (.inl (hc ▸ h)))
    · exact .inr (.inr (.inr (notified_mono h)))
  · rcases h with h | ⟨u', hu'⟩ | h | h
    · exact .inl h
    · refine .inr (.inl ⟨u', ?_⟩)
      have hne : u' ≠ u := fun heq ↦ hc (Option.some.inj (hu'.symm.trans (heq ▸ hu)))
      simpa [hne] using hu'
    · exact .inr (.inr (.inl (notified_mono h)))
    · exact .inr (.inr (.inr (notified_mono h)))

omit [DecidableEq υ] in
theorem Read.not_start {c : Cell} (h : Read s c) : s.pc ≠ .start := fun heq ↦ by
  simp [Read, heq] at h

theorem inv_notifyUpdate (h : Inv plugs s) {u : υ} {o : Owner} (hu : s.updating u = some o)
    (hlost : LosesNothing plugs s (.notifyUpdate u)) :
    Inv plugs { s.notifyUpdate o with updating := Function.update s.updating u none } where
  held o' e he := by
    rcases h.held o' e he with hmem | hset
    · by_cases ho : o' = o
      · subst ho
        exact .inr (by simp [State.notifyUpdate, hmem])
      · exact .inl (by simpa [State.notifyUpdate, ho] using hmem)
    · exact .inr (by simp [State.notifyUpdate, hset])
  testHeld := h.testHeld
  plugHeld := h.plugHeld
  testCovered c hr := by
    obtain ⟨e, he⟩ := h.testHeld (Read.not_start hr)
    refine covered_notify hu (h.testCovered c hr) fun ho ↦ .inr (.inr (.inl ?_))
    subst ho
    exact notified_of_held h he
  plugCovered name hname hr := by
    refine covered_notify hu (h.plugCovered name hname hr) fun ho ↦ ?_
    subst ho
    by_cases hreg : Registered s name
    · obtain ⟨e, he⟩ := h.plugHeld name hname hreg
      exact .inr (.inr (.inl (notified_of_held h he)))
    · rcases hlost name hname hu hr hreg with hsame | hother | htest
      · exact .inl hsame
      · exact .inr (.inl hother)
      · exact .inr (.inr (.inr htest))
  published := h.published

/-! ### The watcher -/

omit [DecidableEq υ] in
theorem held_addEvent {o : Owner} {s : State υ Value}
    (h : ∀ o e, (o, e) ∈ s.events → e ∈ s.updateEvents o ∨ s.isSet e = true) (o' : Owner) (e : ℕ)
    (he : (o', e) ∈ (s.addEvent o).events) :
    e ∈ (s.addEvent o).updateEvents o' ∨ (s.addEvent o).isSet e = true := by
  rcases List.mem_append.mp he with he | he
  · rcases h o' e he with hmem | hset
    · refine .inl ?_
      by_cases ho : o' = o
      · subst ho
        simp [State.addEvent, hmem]
      · simpa [State.addEvent, ho] using hmem
    · exact .inr hset
  · obtain ⟨rfl, rfl⟩ : o' = o ∧ e = s.eventsMade := by simpa using he
    exact .inl (by simp [State.addEvent])

omit [DecidableEq υ] in
theorem covered_addEvent {o : Owner} {c : Cell} (h : Covered s c) : Covered (s.addEvent o) c := by
  have hnotified : ∀ o', Notified s o' → Notified (s.addEvent o) o' := by
    rintro o' ⟨e, he, hset⟩
    exact ⟨e, List.mem_append_left _ he, hset⟩
  rcases h with h | h | h | h
  · exact .inl h
  · exact .inr (.inl h)
  · exact .inr (.inr (.inl (hnotified _ h)))
  · exact .inr (.inr (.inr (hnotified _ h)))

omit [DecidableEq υ] in
theorem inv_watch {s' : State υ Value} (h : Inv plugs s) (hw : watch plugs s = some s') :
    Inv plugs s' := by
  unfold watch at hw
  split at hw
  · -- A new round begins with the event of the test state.
    obtain rfl := Option.some.inj hw
    refine ⟨held_addEvent nofun, fun _ ↦ ⟨s.eventsMade, by simp [State.addEvent]⟩, nofun, ?_, ?_, nofun⟩
    · intro c hr
      cases c <;> simp [Read, reads] at hr
    · intro name hname hr
      simp [Read, reads, hname] at hr
  · rename_i c rest hpc
    obtain rfl := Option.some.inj hw
    have hcovered : ∀ c', Read { s with pc := .reading rest } c' → (Read s c' → Covered s c') →
        Covered { s with
          snapshot := Function.update s.snapshot c (s.cells c), pc := .reading rest } c' := by
      intro c' hr hold
      by_cases hc : c' = c
      · subst hc
        exact .inl (by simp)
      · rcases hold (by simpa [Read, hpc, hc] using hr) with hsame | hother
        · exact .inl (by simpa [hc] using hsame)
        · exact .inr hother
    exact ⟨h.held, fun _ ↦ h.testHeld (by simp [hpc]), nofun,
      fun c' hr ↦ hcovered _ hr (h.testCovered c'),
      fun name hname hr ↦ hcovered _ hr (h.plugCovered name hname), nofun⟩
  · rename_i hpc
    obtain rfl := Option.some.inj hw
    have hread : ∀ c, Read s c := fun c ↦ by simp [Read, hpc]
    exact ⟨h.held, fun _ ↦ h.testHeld (by simp [hpc]), fun name hname hr ↦ absurd hname hr,
      fun c _ ↦ h.testCovered c (hread _), fun name hname _ ↦ h.plugCovered name hname (hread _),
      fun _ ↦ rfl⟩
  · rename_i name rest hpc
    obtain rfl := Option.some.inj hw
    have hread : ∀ c, Read s c := fun c ↦ by simp [Read, hpc]
    refine ⟨held_addEvent h.held, fun _ ↦ ?_, fun name' hname' hr ↦ ?_,
      fun c _ ↦ covered_addEvent (h.testCovered c (hread _)),
      fun name' hname' _ ↦ covered_addEvent (h.plugCovered name' hname' (hread _)),
      fun _ ↦ h.published (by simp [Published, hpc])⟩
    · obtain ⟨e, he⟩ := h.testHeld (by simp [hpc])
      exact ⟨e, List.mem_append_left _ he⟩
    · by_cases hname : name' = name
      · subst hname
        exact ⟨s.eventsMade, by simp [State.addEvent]⟩
      · obtain ⟨e, he⟩ := h.plugHeld name' hname' (by simpa [Registered, hpc, hname] using hr)
        exact ⟨e, List.mem_append_left _ he⟩
  · rename_i hpc
    obtain rfl := Option.some.inj hw
    have hread : ∀ c, Read s c := fun c ↦ by simp [Read, hpc]
    exact ⟨h.held, fun _ ↦ h.testHeld (by simp [hpc]),
      fun name hname _ ↦ h.plugHeld name hname (by simp [Registered, hpc]),
      fun c _ ↦ h.testCovered c (hread _), fun name hname _ ↦ h.plugCovered name hname (hread _),
      fun _ ↦ h.published (by simp [Published, hpc])⟩
  · split at hw
    · obtain rfl := Option.some.inj hw
      exact ⟨h.held, fun hne ↦ absurd rfl hne, nofun, nofun, nofun, nofun⟩
    · cases hw

theorem inv_step {a : Action υ Value} {s' : State υ Value} (h : Inv plugs s)
    (ha : LosesNothing plugs s a) (hstep : step plugs s a = some s') : Inv plugs s' := by
  cases a with
  | mutate u c v =>
      simp only [step] at hstep
      split at hstep
      · obtain rfl := Option.some.inj hstep
        exact inv_mutate h ‹_› c v
      · cases hstep
  | notifyUpdate u =>
      simp only [step] at hstep
      split at hstep
      · obtain rfl := Option.some.inj hstep
        exact inv_notifyUpdate h ‹_› ha
      · cases hstep
  | watch => exact inv_watch h hstep
  | error =>
      simp only [step] at hstep
      split at hstep
      · cases hstep
      · obtain rfl := Option.some.inj hstep
        exact ⟨h.held, fun hne ↦ absurd rfl hne, nofun, nofun, nofun, nofun⟩

omit [DecidableEq υ] in
theorem Inv.publishesFinal (h : Inv plugs s) : PublishesFinal plugs s := by
  intro hq
  have hnotified : ∀ o, ¬Notified s o := by
    rintro o ⟨e, he, hset⟩
    simp [hq.notSet o e he] at hset
  have hsame : ∀ c, Covered s c → s.snapshot c = s.cells c := by
    intro c hc
    rcases hc with hc | ⟨u, hu⟩ | hc | hc
    · exact hc
    · simp [hq.noUpdate u] at hu
    · exact absurd hc (hnotified _)
    · exact absurd hc (hnotified _)
  have hread : ∀ c, Read s c := fun c ↦ by simp [Read, hq.waiting]
  exact ⟨s.snapshot, h.published (by simp [Published, hq.waiting]),
    fun c ↦ hsame _ (h.testCovered c (hread _)),
    fun name hname ↦ hsame _ (h.plugCovered name hname (hread _))⟩

/-- In every run in which no notification of a plug is lost, a watcher that
waits has published the current state of the test and of its plugs. -/
theorem publishes_final (plugs : List String) (cells : Cell → Value) (as : List (Action υ Value))
    (s : State υ Value) (hmeets : RunMeets (step plugs) (LosesNothing plugs) as { cells := cells })
    (hrun : runActions (step plugs) as { cells := cells } = some s) : PublishesFinal plugs s :=
  (run_invariant (fun _ _ _ h ha hstep ↦ inv_step h ha hstep) (inv_initial cells) hmeets
    hrun).publishesFinal

end Steps

/-! ## The defect -/

section Defect

/-- A round of a watcher of one plug: the event, four accesses, the callback, the
event of the plug and the start of the wait. -/
def oneRound : List (Action Unit ℕ) := List.replicate 8 .watch

/-- The plug is updated while the watcher waits, and published in the next round. -/
def updateInWait : List (Action Unit ℕ) :=
  oneRound ++ ([.mutate () (.plug "UserInput") 1, .notifyUpdate (), .watch] ++ oneRound)

/-- The plug is updated right after the callback. -/
def updateInGap : List (Action Unit ℕ) :=
  List.replicate 6 .watch ++ [.mutate () (.plug "UserInput") 1, .notifyUpdate ()] ++
    List.replicate 2 .watch

theorem watch_losesNothing {n : ℕ} (s : State Unit ℕ) :
    RunMeets (step ["UserInput"]) (LosesNothing ["UserInput"]) (List.replicate n .watch) s := by
  refine runMeets_of_forall (fun a ha s ↦ ?_) s
  obtain rfl := List.eq_of_mem_replicate ha
  trivial

theorem publishes_final_wait : ∃ s, runActions (step ["UserInput"]) updateInWait
    { cells := fun _ ↦ 0 } = some s ∧ PublishesFinal ["UserInput"] s := by
  obtain ⟨s, hs⟩ : ∃ s, runActions (step ["UserInput"]) updateInWait { cells := fun _ ↦ 0 } = some s :=
    ⟨_, rfl⟩
  refine ⟨s, hs, publishes_final ["UserInput"] (fun _ ↦ 0) updateInWait s ?_ hs⟩
  refine runMeets_append (watch_losesNothing _) ?_
  rintro s₁ ⟨⟩
  refine ⟨trivial, ?_⟩
  rintro s₂ ⟨⟩
  refine ⟨fun name _ _ _ hreg ↦ absurd trivial hreg, ?_⟩
  rintro s₃ ⟨⟩
  exact ⟨trivial, fun s₄ _ ↦ watch_losesNothing s₄⟩

theorem not_publishes_final_gap : ∃ s, runActions (step ["UserInput"]) updateInGap
    { cells := fun _ ↦ 0 } = some s ∧ ¬PublishesFinal ["UserInput"] s := by
  refine ⟨_, rfl, fun h ↦ ?_⟩
  -- The plug had no event when it was notified, so that nothing is set.
  obtain ⟨d, hd, -, hplug⟩ := h ⟨rfl, fun _ _ _ ↦ rfl, fun _ ↦ rfl⟩
  obtain rfl := Option.some.inj hd
  have hstale := hplug "UserInput" List.mem_cons_self
  revert hstale
  decide

end Defect

end OpenHtf.StationWatcher
