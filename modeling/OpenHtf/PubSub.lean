import Mathlib.Data.Finset.Basic
import OpenHtf.Lib.Interleaving

/-!
# Publishers and subscribers

`PubSub` of `output.servers.pub_sub`, with what `DashboardPubSub` and `StationPubSub` add
to it: a message is remembered after it has been published, and a new subscriber gets
the remembered one.
-/

set_option autoImplicit false

namespace OpenHtf.PubSub

/-- How a message came to a client: from `publish`, or from `on_subscribe`. -/
inductive Sending (M : Type) where
  | published (m : M)
  | replied (m : M)
  deriving DecidableEq

def Sending.message {M : Type} : Sending M → M
  | published m | replied m => m

@[simp] def Sending.fromPublish {M : Type} : Sending M → Option M
  | published m => some m
  | replied _ => none

/-- A publisher holds the lock as long as it sends. -/
inductive Publisher (C M : Type) where
  | idle
  | sending (m : M) (todo : Finset C)
  | remembering (m : M)
  deriving DecidableEq

/-- A client is added in `on_open`, which then calls `on_subscribe`: that looks whether
there is a message, reads it and sends it. -/
inductive Client (M : Type) where
  | new
  | added
  | looked
  | replying (m : M)
  | subscribed
  | closed
  deriving DecidableEq

/-- `log` lists the messages in the order in which they were published; `joined` and
`left` tell how many there were when a client was added and when it was removed. -/
structure State (P C M : Type) where
  lock : Option P := none
  subscribers : Finset C := ∅
  last : Option M := none
  publisher : P → Publisher C M := fun _ ↦ .idle
  client : C → Client M := fun _ ↦ .new
  sent : C → List (Sending M) := fun _ ↦ []
  log : List M := []
  joined : C → ℕ := fun _ ↦ 0
  left : C → ℕ := fun _ ↦ 0

/-- In `look`, `wanted` tells whether there is a test whose state a new subscriber gets;
on the dashboard it gets the last message always. -/
inductive Action (P C M : Type) where
  | publish (p : P) (m : M)
  | send (p : P) (c : C)
  | release (p : P)
  | remember (p : P)
  | add (c : C)
  | look (c : C) (wanted : Bool)
  | read (c : C)
  | reply (c : C)
  | remove (c : C)

variable {P C M : Type} [DecidableEq P] [DecidableEq C]

namespace State

/-- `publish` takes the lock. -/
def publish (s : State P C M) (p : P) (m : M) : State P C M :=
  { s with
    lock := some p
    publisher := Function.update s.publisher p (.sending m s.subscribers)
    log := s.log ++ [m] }

/-- `client.send` in `publish`. -/
def send (s : State P C M) (p : P) (c : C) (m : M) (todo : Finset C) : State P C M :=
  { s with
    publisher := Function.update s.publisher p (.sending m (todo.erase c))
    sent := Function.update s.sent c (s.sent c ++ [.published m]) }

def release (s : State P C M) (p : P) (m : M) : State P C M :=
  { s with
    lock := none
    publisher := Function.update s.publisher p (.remembering m) }

def remember (s : State P C M) (p : P) (m : M) : State P C M :=
  { s with
    publisher := Function.update s.publisher p .idle
    last := some m }

def add (s : State P C M) (c : C) : State P C M :=
  { s with
    subscribers := insert c s.subscribers
    client := Function.update s.client c .added
    joined := Function.update s.joined c s.log.length }

def setClient (s : State P C M) (c : C) (pc : Client M) : State P C M :=
  { s with client := Function.update s.client c pc }

/-- `self.send` in `on_subscribe`. -/
def reply (s : State P C M) (c : C) (m : M) : State P C M :=
  { s with
    client := Function.update s.client c .subscribed
    sent := Function.update s.sent c (s.sent c ++ [.replied m]) }

def remove (s : State P C M) (c : C) : State P C M :=
  { s with
    subscribers := s.subscribers.erase c
    client := Function.update s.client c .closed
    left := Function.update s.left c s.log.length }

end State

def step (s : State P C M) : Action P C M → Option (State P C M)
  | .publish p m =>
      match s.publisher p, s.lock with
      | .idle, none => some (s.publish p m)
      | _, _ => none
  | .send p c =>
      match s.publisher p with
      | .sending m todo => if c ∈ todo then some (s.send p c m todo) else none
      | _ => none
  | .release p =>
      match s.publisher p with
      | .sending m todo => if todo = ∅ then some (s.release p m) else none
      | _ => none
  | .remember p =>
      match s.publisher p with
      | .remembering m => some (s.remember p m)
      | _ => none
  | .add c =>
      match s.client c, s.lock with
      | .new, none => some (s.add c)
      | _, _ => none
  | .look c wanted =>
      match s.client c with
      | .added => some (s.setClient c (if s.last.isSome ∧ wanted then .looked else .subscribed))
      | _ => none
  | .read c =>
      match s.client c, s.last with
      | .looked, some m => some (s.setClient c (.replying m))
      | _, _ => none
  | .reply c =>
      match s.client c with
      | .replying m => some (s.reply c m)
      | _ => none
  | .remove c =>
      match s.client c, s.lock with
      | .subscribed, none => some (s.remove c)
      | _, _ => none

section Publishers

variable (s : State P C M) (p : P) (c : C) (m : M) (todo : Finset C)

omit [DecidableEq C] in
theorem publisher_publish : (s.publish p m).publisher p = .sending m s.subscribers := Function.update_self ..

theorem publisher_send : (s.send p c m todo).publisher p = .sending m (todo.erase c) := Function.update_self ..

omit [DecidableEq C] in
theorem publisher_release : (s.release p m).publisher p = .remembering m := Function.update_self ..

omit [DecidableEq C] in
theorem publisher_remember : (s.remember p m).publisher p = .idle := Function.update_self ..

end Publishers

/-! ### Steps -/

section Steps

variable {s s' : State P C M} {p : P} {c : C} {m : M} {wanted : Bool}

theorem step_publish : step s (.publish p m) = some s' ↔ s.publisher p = .idle ∧ s.lock = none ∧
    s' = s.publish p m := by
  rw [step]
  split
  · rename_i hidle hlock
    simp [hidle, hlock, eq_comm]
  · rename_i hnot
    simpa using fun hidle hlock ↦ absurd hlock (hnot hidle)

theorem step_send : step s (.send p c) = some s' ↔ ∃ m todo, s.publisher p = .sending m todo ∧ c ∈ todo ∧
    s' = s.send p c m todo := by
  rw [step]
  split
  · rename_i m todo hpc
    simp only [hpc, Publisher.sending.injEq, Option.ite_none_right_eq_some, Option.some.injEq]
    constructor
    · rintro ⟨hc, rfl⟩
      exact ⟨m, todo, ⟨rfl, rfl⟩, hc, rfl⟩
    · rintro ⟨m', todo', ⟨rfl, rfl⟩, hc, rfl⟩
      exact ⟨hc, rfl⟩
  · rename_i hnot
    simpa using fun m todo hpc ↦ absurd hpc (hnot m todo)

theorem step_release : step s (.release p) = some s' ↔ ∃ m, s.publisher p = .sending m ∅ ∧
    s' = s.release p m := by
  rw [step]
  split
  · rename_i m todo hpc
    simp only [hpc, Publisher.sending.injEq, Option.ite_none_right_eq_some, Option.some.injEq]
    constructor
    · rintro ⟨rfl, rfl⟩
      exact ⟨m, ⟨rfl, rfl⟩, rfl⟩
    · rintro ⟨m', ⟨rfl, rfl⟩, rfl⟩
      exact ⟨rfl, rfl⟩
  · rename_i hnot
    simpa using fun m hpc ↦ absurd hpc (hnot m ∅)

theorem step_remember : step s (.remember p) = some s' ↔ ∃ m, s.publisher p = .remembering m ∧
    s' = s.remember p m := by
  rw [step]
  split
  · rename_i m hpc
    rw [hpc]
    simp [eq_comm]
  · rename_i hnot
    simpa using fun m hpc ↦ absurd hpc (hnot m)

theorem step_add : step s (.add c) = some s' ↔ s.client c = .new ∧ s.lock = none ∧
    s' = s.add c := by
  rw [step]
  split
  · rename_i hnew hlock
    simp [hnew, hlock, eq_comm]
  · rename_i hnot
    simpa using fun hnew hlock ↦ absurd hlock (hnot hnew)

theorem step_look : step s (.look c wanted) = some s' ↔ s.client c = .added ∧
    s' = s.setClient c (if s.last.isSome ∧ wanted then .looked else .subscribed) := by
  rw [step]
  split
  · rename_i hpc
    simp only [hpc, true_and, Option.some.injEq]
    exact eq_comm
  · rename_i hnot
    simpa using fun hpc ↦ absurd hpc hnot

theorem step_read : step s (.read c) = some s' ↔ s.client c = .looked ∧ ∃ m, s.last = some m ∧
    s' = s.setClient c (.replying m) := by
  rw [step]
  split
  · rename_i m hpc hlast
    rw [hpc, hlast]
    simp [eq_comm]
  · rename_i hnot
    simpa using fun hpc m hlast ↦ absurd hlast (hnot m hpc)

theorem step_reply : step s (.reply c) = some s' ↔ ∃ m, s.client c = .replying m ∧
    s' = s.reply c m := by
  rw [step]
  split
  · rename_i m hpc
    rw [hpc]
    simp [eq_comm]
  · rename_i hnot
    simpa using fun m hpc ↦ absurd hpc (hnot m)

theorem step_remove : step s (.remove c) = some s' ↔ s.client c = .subscribed ∧ s.lock = none ∧
    s' = s.remove c := by
  rw [step]
  split
  · rename_i hpc hlock
    simp [hpc, hlock, eq_comm]
  · rename_i hnot
    simpa using fun hpc hlock ↦ absurd hlock (hnot hpc)

end Steps

/-! ## What is published -/

/-- The client is between the two calls of `on_open` and `on_close`. -/
def Client.IsOpen (pc : Client M) : Prop := pc ≠ .new ∧ pc ≠ .closed

/-- The message that the publisher has yet to send to the client. -/
def Publisher.due (c : C) : Publisher C M → List M
  | .sending m todo => if c ∈ todo then [m] else []
  | _ => []

/-- The message that the holder of the lock has yet to send to the client. -/
def State.due (s : State P C M) (c : C) : List M :=
  match s.lock with
  | some p => (s.publisher p).due c
  | none => []

/-- What the client got from `publish`. -/
def State.got (s : State P C M) (c : C) : List M := (s.sent c).filterMap Sending.fromPublish

structure Inv (s : State P C M) : Prop where
  owner : ∀ p m todo, s.publisher p = .sending m todo → s.lock = some p
  mem_iff : ∀ c, c ∈ s.subscribers ↔ (s.client c).IsOpen
  todo_subset : ∀ p m todo, s.publisher p = .sending m todo → todo ⊆ s.subscribers
  sent_new : ∀ c, s.client c = .new → s.sent c = []
  joined_le : ∀ c, s.joined c ≤ s.log.length
  got_open : ∀ c, (s.client c).IsOpen → s.got c ++ s.due c = s.log.drop (s.joined c)
  left_le : ∀ c, s.left c ≤ s.log.length
  got_closed : ∀ c, s.client c = .closed → s.got c = (s.log.take (s.left c)).drop (s.joined c)

omit [DecidableEq P] in
theorem inv_init : Inv ({} : State P C M) where
  owner p m todo h := by cases h
  mem_iff c := by simp [Client.IsOpen]
  todo_subset p m todo h := by cases h
  sent_new c _ := rfl
  joined_le c := le_rfl
  got_open c h := absurd rfl h.1
  left_le c := le_rfl
  got_closed c h := by cases h

section Published

variable {s s' : State P C M} {p : P} {c : C} {m : M} {todo : Finset C}

omit [DecidableEq P] in
theorem due_of_unlocked (hlock : s.lock = none) (c : C) : s.due c = [] := by
  simp [State.due, hlock]

omit [DecidableEq P] in
theorem Inv.due_of_sending (hinv : Inv s) (hpc : s.publisher p = .sending m todo) (c : C) :
    s.due c = if c ∈ todo then [m] else [] := by
  simp [State.due, hinv.owner p m todo hpc, hpc, Publisher.due]

theorem update_cases {α β : Type} [DecidableEq α] {f : α → β} {x y : α} {v w : β} (h : Function.update f x v y = w) :
    y = x ∧ v = w ∨ y ≠ x ∧ f y = w := by
  by_cases hy : y = x
  · subst hy
    exact .inl ⟨rfl, by rwa [Function.update_self] at h⟩
  · exact .inr ⟨hy, by rwa [Function.update_of_ne hy] at h⟩

theorem Inv.publish (hinv : Inv s) (hlock : s.lock = none) : Inv (s.publish p m) where
  owner q m' todo hq := by
    obtain ⟨rfl, -⟩ | ⟨-, hq⟩ := update_cases hq
    · rfl
    · cases hlock.symm.trans (hinv.owner q m' todo hq)
  mem_iff := hinv.mem_iff
  todo_subset q m' todo hq := by
    obtain ⟨-, heq⟩ | ⟨-, hq⟩ := update_cases hq
    · obtain ⟨-, rfl⟩ := Publisher.sending.inj heq
      exact subset_rfl
    · exact hinv.todo_subset q m' todo hq
  sent_new := hinv.sent_new
  joined_le c := by
    simp only [State.publish, List.length_append]
    exact (hinv.joined_le c).trans (Nat.le_add_right _ _)
  got_open c hc := by
    have hgot := hinv.got_open c hc
    have hmem : c ∈ s.subscribers := (hinv.mem_iff c).mpr hc
    have hdue : (s.publish p m).due c = [m] := by
      simp [State.due, State.publish, Publisher.due, hmem]
    rw [due_of_unlocked hlock, List.append_nil] at hgot
    rw [hdue]
    simp only [State.publish]
    rw [List.drop_append_of_le_length (hinv.joined_le c), ← hgot]
    rfl
  left_le c := by
    simp only [State.publish, List.length_append]
    exact (hinv.left_le c).trans (Nat.le_add_right _ _)
  got_closed c hc := by
    simp only [State.publish]
    rw [List.take_append_of_le_length (hinv.left_le c)]
    exact hinv.got_closed c hc

theorem Inv.send (hinv : Inv s) (hpc : s.publisher p = .sending m todo) (hc : c ∈ todo) : Inv (s.send p c m todo) := by
  have hlock := hinv.owner p m todo hpc
  have hopen : (s.client c).IsOpen := (hinv.mem_iff c).mp (hinv.todo_subset p m todo hpc hc)
  have hgot {c' : C} (hne : c' ≠ c) : (s.send p c m todo).got c' = s.got c' := by
    simp [State.got, State.send, hne]
  constructor
  · intro q m' todo' hq
    obtain ⟨rfl, -⟩ | ⟨-, hq⟩ := update_cases hq
    · exact hlock
    · exact hinv.owner q m' todo' hq
  · exact hinv.mem_iff
  · intro q m' todo' hq
    obtain ⟨-, heq⟩ | ⟨-, hq⟩ := update_cases hq
    · obtain ⟨-, rfl⟩ := Publisher.sending.inj heq
      exact (Finset.erase_subset c todo).trans (hinv.todo_subset p m todo hpc)
    · exact hinv.todo_subset q m' todo' hq
  · intro c' hnew
    have hne : c' ≠ c := by
      rintro rfl
      exact hopen.1 hnew
    exact (Function.update_of_ne hne ..).trans (hinv.sent_new c' hnew)
  · exact hinv.joined_le
  · intro c' hc'
    have hdue : (s.send p c m todo).due c' = if c' ∈ todo.erase c then [m] else [] := by
      simp [State.due, State.send, hlock, Publisher.due]
    have hold := hinv.got_open c' hc'
    rw [hinv.due_of_sending hpc] at hold
    rw [hdue]
    by_cases hne : c' = c
    · subst hne
      rw [if_pos hc] at hold
      simpa [State.got, State.send, List.filterMap_append] using hold
    · rw [hgot hne]
      simpa [hne, State.send] using hold
  · exact hinv.left_le
  · intro c' hclosed
    have hne : c' ≠ c := by
      rintro rfl
      exact hopen.2 hclosed
    rw [hgot hne]
    exact hinv.got_closed c' hclosed

theorem Inv.release (hinv : Inv s) (hpc : s.publisher p = .sending m ∅) : Inv (s.release p m) where
  owner q m' todo hq := by
    obtain ⟨-, heq⟩ | ⟨hne, hq⟩ := update_cases hq
    · cases heq
    · have hlock := (hinv.owner q m' todo hq).symm.trans (hinv.owner p m ∅ hpc)
      exact absurd (Option.some.inj hlock) hne
  mem_iff := hinv.mem_iff
  todo_subset q m' todo hq := by
    obtain ⟨-, heq⟩ | ⟨-, hq⟩ := update_cases hq
    · cases heq
    · exact hinv.todo_subset q m' todo hq
  sent_new := hinv.sent_new
  joined_le := hinv.joined_le
  got_open c hc := by
    have hold := hinv.got_open c hc
    rw [hinv.due_of_sending hpc, if_neg (Finset.notMem_empty c)] at hold
    rw [due_of_unlocked rfl]
    exact hold
  left_le := hinv.left_le
  got_closed := hinv.got_closed

theorem Inv.remember (hinv : Inv s) (hpc : s.publisher p = .remembering m) : Inv (s.remember p m) where
  owner q m' todo hq := by
    obtain ⟨-, heq⟩ | ⟨-, hq⟩ := update_cases hq
    · cases heq
    · exact hinv.owner q m' todo hq
  mem_iff := hinv.mem_iff
  todo_subset q m' todo hq := by
    obtain ⟨-, heq⟩ | ⟨-, hq⟩ := update_cases hq
    · cases heq
    · exact hinv.todo_subset q m' todo hq
  sent_new := hinv.sent_new
  joined_le := hinv.joined_le
  got_open c hc := by
    have hdue : (s.remember p m).due c = s.due c := by
      simp only [State.due, State.remember]
      cases s.lock with
      | none => rfl
      | some q =>
          by_cases hq : q = p
          · simp [hq, hpc, Publisher.due]
          · simp [hq]
    rw [hdue]
    exact hinv.got_open c hc
  left_le := hinv.left_le
  got_closed := hinv.got_closed

omit [DecidableEq P] in
theorem Inv.add (hinv : Inv s) (hnew : s.client c = .new) (hlock : s.lock = none) : Inv (s.add c) where
  owner := hinv.owner
  mem_iff c' := by
    by_cases hne : c' = c
    · simp [State.add, hne, Client.IsOpen]
    · simp [State.add, hne, hinv.mem_iff]
  todo_subset q m' todo hq := (hinv.todo_subset q m' todo hq).trans (Finset.subset_insert c _)
  sent_new c' h := by
    by_cases hne : c' = c
    · rw [hne]
      exact hinv.sent_new c hnew
    · exact hinv.sent_new c' ((Function.update_of_ne hne ..).symm.trans h)
  joined_le c' := by
    by_cases hne : c' = c
    · simp [State.add, hne]
    · simpa [State.add, hne] using hinv.joined_le c'
  got_open c' hc' := by
    have hunlocked : (s.add c).lock = none := hlock
    rw [due_of_unlocked hunlocked, List.append_nil]
    by_cases hne : c' = c
    · simp [State.add, hne, State.got, hinv.sent_new c hnew]
    · have hold := hinv.got_open c' (by simpa [State.add, hne] using hc')
      rw [due_of_unlocked hlock, List.append_nil] at hold
      simpa [State.add, hne, State.got] using hold
  left_le := hinv.left_le
  got_closed c' hclosed := by
    by_cases hne : c' = c
    · simp [State.add, hne] at hclosed
    · have hold := hinv.got_closed c' (by simpa [State.add, hne] using hclosed)
      simpa [State.add, hne, State.got] using hold

omit [DecidableEq P] in
/-- A client goes on in `on_subscribe`. -/
theorem Inv.setClient {pc : Client M} (hinv : Inv s) (hopen : (s.client c).IsOpen) (hpc : pc.IsOpen) :
    Inv (s.setClient c pc) := by
  have hstays (c' : C) : ((s.setClient c pc).client c').IsOpen ↔ (s.client c').IsOpen := by
    by_cases hne : c' = c
    · simp [State.setClient, hne, hopen, hpc]
    · simp [State.setClient, hne]
  have hback {c' : C} {pc' : Client M} (h : (s.setClient c pc).client c' = pc') (hpc' : ¬pc'.IsOpen) :
      s.client c' = pc' := by
    by_cases hne : c' = c
    · subst hne
      have hself : (s.setClient c' pc).client c' = pc := Function.update_self ..
      exact absurd (hself.symm.trans h ▸ hpc) hpc'
    · exact (Function.update_of_ne hne ..).symm.trans h
  constructor
  · exact hinv.owner
  · exact fun c' ↦ (hinv.mem_iff c').trans (hstays c').symm
  · exact hinv.todo_subset
  · exact fun c' h ↦ hinv.sent_new c' (hback h (by simp [Client.IsOpen]))
  · exact hinv.joined_le
  · exact fun c' h ↦ hinv.got_open c' ((hstays c').mp h)
  · exact hinv.left_le
  · exact fun c' h ↦ hinv.got_closed c' (hback h (by simp [Client.IsOpen]))

omit [DecidableEq P] in
theorem Inv.reply (hinv : Inv s) (hpc : s.client c = .replying m) : Inv (s.reply c m) := by
  have hopen : (s.client c).IsOpen := by simp [hpc, Client.IsOpen]
  have hset : Inv (s.setClient c .subscribed) := hinv.setClient hopen (by simp [Client.IsOpen])
  have hgot (c' : C) : (s.reply c m).got c' = s.got c' := by
    by_cases hne : c' = c
    · simp [State.got, State.reply, hne, List.filterMap_append]
    · simp [State.got, State.reply, hne]
  constructor
  · exact hset.owner
  · exact hset.mem_iff
  · exact hset.todo_subset
  · intro c' h
    by_cases hne : c' = c
    · subst hne
      cases (Function.update_self ..).symm.trans h
    · exact (Function.update_of_ne hne ..).trans (hset.sent_new c' h)
  · exact hset.joined_le
  · exact fun c' h ↦ hgot c' ▸ hset.got_open c' h
  · exact hset.left_le
  · exact fun c' h ↦ hgot c' ▸ hset.got_closed c' h

omit [DecidableEq P] in
theorem Inv.remove (hinv : Inv s) (hpc : s.client c = .subscribed) (hlock : s.lock = none) : Inv (s.remove c) where
  owner := hinv.owner
  mem_iff c' := by
    by_cases hne : c' = c
    · simp [State.remove, hne, Client.IsOpen]
    · simp [State.remove, hne, hinv.mem_iff]
  todo_subset q m' todo hq := by cases hlock.symm.trans (hinv.owner q m' todo hq)
  sent_new c' h := by
    by_cases hne : c' = c
    · subst hne
      cases (Function.update_self ..).symm.trans h
    · exact hinv.sent_new c' ((Function.update_of_ne hne ..).symm.trans h)
  joined_le := hinv.joined_le
  got_open c' h := by
    by_cases hne : c' = c
    · subst hne
      exact absurd (Function.update_self ..) h.2
    · apply hinv.got_open c'
      simpa [State.remove, hne] using h
  left_le c' := by
    by_cases hne : c' = c
    · simp [State.remove, hne]
    · simpa [State.remove, hne] using hinv.left_le c'
  got_closed c' h := by
    by_cases hne : c' = c
    · subst hne
      have hgot := hinv.got_open c' (by simp [hpc, Client.IsOpen])
      rw [due_of_unlocked hlock, List.append_nil] at hgot
      simpa [State.remove, State.got] using hgot
    · have hold := hinv.got_closed c' ((Function.update_of_ne hne ..).symm.trans h)
      simpa [State.remove, State.got, hne] using hold

theorem inv_step {a : Action P C M} (hinv : Inv s) (hstep : step s a = some s') : Inv s' := by
  cases a with
  | publish p m =>
      obtain ⟨-, hlock, rfl⟩ := step_publish.mp hstep
      exact hinv.publish hlock
  | send p c =>
      obtain ⟨m, todo, hpc, hc, rfl⟩ := step_send.mp hstep
      exact hinv.send hpc hc
  | release p =>
      obtain ⟨m, hpc, rfl⟩ := step_release.mp hstep
      exact hinv.release hpc
  | remember p =>
      obtain ⟨m, hpc, rfl⟩ := step_remember.mp hstep
      exact hinv.remember hpc
  | add c =>
      obtain ⟨hnew, hlock, rfl⟩ := step_add.mp hstep
      exact hinv.add hnew hlock
  | look c wanted =>
      obtain ⟨hpc, rfl⟩ := step_look.mp hstep
      apply hinv.setClient
      · simp [hpc, Client.IsOpen]
      · split <;> simp [Client.IsOpen]
  | read c =>
      obtain ⟨hpc, m, -, rfl⟩ := step_read.mp hstep
      apply hinv.setClient
      · simp [hpc, Client.IsOpen]
      · simp [Client.IsOpen]
  | reply c =>
      obtain ⟨m, hpc, rfl⟩ := step_reply.mp hstep
      exact hinv.reply hpc
  | remove c =>
      obtain ⟨hpc, hlock, rfl⟩ := step_remove.mp hstep
      exact hinv.remove hpc hlock

theorem inv_run {as : List (Action P C M)} (hrun : runActions step as {} = some s) : Inv s :=
  run_invariant (C := fun _ _ ↦ True) (fun _ _ _ h _ hstep ↦ inv_step h hstep) inv_init
    (runMeets_of_forall (fun _ _ _ ↦ trivial) _) hrun

end Published

end OpenHtf.PubSub
