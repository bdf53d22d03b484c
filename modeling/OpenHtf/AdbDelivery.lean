import OpenHtf.AdbDemux
import OpenHtf.AdbStreamClose

/-!
# Delivering the payloads of all ADB streams

Whoever reads for the others, the payloads that the device writes to a stream
reach its `read` calls in order, and each is acknowledged once, as long as no
stream is handed a WRTE before its thread has handled the answer to OPEN and no
id is given again too early.
-/

set_option autoImplicit false

namespace OpenHtf.Adb

/-! ## Delivery in order -/

/-- What `read` returned is the beginning of what the device wrote to the stream, the
payloads are accepted in order and acknowledged once each, and while the map has
the stream, none of those that were read for it is lost. -/
structure InOrder (s : State) (i : ℕ) : Prop where
  returned : (s.streams i).returned <+: (s.streams i).wrtes.flatten
  received : (s.streams i).received <+: (s.streams i).wrtes
  acks : okays (s.streams i).sent = (s.streams i).received.map fun _ ↦ (s.streams i).ack
  lost : s.lookup (s.streams i).localId = some i → (s.streams i).lost = []

/-! ## The streams one by one -/

/-- The message that the holder of the lock has read and nobody has accepted. -/
def ReaderPc.hand : ReaderPc → List Frame
  | handling f | forwarding f _ | enqueuing f _ => [f]
  | _ => []

/-- The message that it is about to put into a queue. -/
def ReaderPc.toPut : ReaderPc → ℕ → List AdbMessage
  | putting f dest, i => if dest = i then [f.message] else []
  | _, _ => []

namespace State

def hand (s : State) : List Frame :=
  match s.reader with
  | some (_, pos) => pos.hand
  | none => []

/-- The messages that nobody has accepted. -/
def pending (s : State) : List Frame := s.hand ++ s.incoming

def pipe (s : State) (i : ℕ) : List AdbMessage :=
  (s.pending.filter (·.addressee = i)).map Frame.message

def putting (s : State) (i : ℕ) : List AdbMessage :=
  match s.reader with
  | some (_, pos) => pos.toPut i
  | none => []

def Mapped (s : State) (i : ℕ) : Prop := i ∈ s.streamTransportMap.map Prod.snd

def view (s : State) (i : ℕ) : View := ⟨s.streams i, s.pipe i, s.putting i, s.Mapped i⟩

/-! ## The condition -/

/-- The device has closed its end of the stream, everything that it sent was read,
and no thread is in a call of the stream. -/
def Finished (s : State) (i : ℕ) : Prop :=
  (s.streams i).status = .closed ∧ s.pipe i = [] ∧ ¬(s.streams i).InCall ∧ i ∉ s.closing

end State

/-- The holder of the lock accepts nothing for its own stream after something was
dropped, and nothing for another one that has not handled the answer to OPEN. -/
def State.MayRead (s : State) (i : ℕ) : ReaderPc → Prop
  | .handling f => f.message.command = .WRTE → f.message.arg1 = (s.streams i).localId →
      (s.streams i).lost = []
  | .enqueuing f dest => f.message.command = .WRTE → (s.streams dest).transport.remote ≠ none
  | _ => True

/-- No stream gets the id of one that is not finished, or is used when another one has
its id, and no WRTE is accepted too early or too late. -/
def Undisturbed (limit : ℕ) (s : State) : Action → Prop
  | .openStream _ => ∀ id ∈ s.freeId limit, ∀ i < s.made, (s.streams i).localId = id → s.Finished i
  | .call i _ | .close i => ∀ j ∈ s.lookup (s.streams i).localId, j = i
  | .run i => ∀ r ∈ s.reader, r.1 = i → s.MayRead i r.2
  | _ => True

/-! ## What a step does to one stream -/

inductive ViewStep (v : View) : View → Prop
  | quiet {v' : View} (h : Quiet v v') : ViewStep v v'
  | taken {v' : View} (m : AdbMessage) (h : Taken m v v') : ViewStep v v'
  | dropped {m : AdbMessage} {rest : List AdbMessage} (pipe : v.pipe = m :: rest)
      (unmapped : ¬v.mapped) : ViewStep v (v.drop m rest)
  | handled {call : Call} {m : AdbMessage} {x : Stream} (pc : v.stream.pc = .got call m)
      (h : Handled m v.stream x) : ViewStep v { v with stream := x }
  | sent {m : AdbMessage} {x : Stream} (h : Sent m v.stream x) :
      ViewStep v { v with stream := x, pipe := v.pipe ++ [m] }

theorem ViewStep.keeps {v v' : View} (h : ViewStep v v') (ha : Accounts v) (hc : Consistent v) :
    Accounts v' ∧ Consistent v' := by
  cases h with
  | quiet h => exact ⟨h.accounts ha, h.consistent hc⟩
  | taken m h => exact ⟨h.accounts ha, h.consistent hc⟩
  | dropped hpipe hm => exact ⟨ha.drop hpipe, hc.drop hpipe hm⟩
  | handled hpc h => exact ⟨ha.handle hpc h, hc.handle hpc h⟩
  | sent h => exact ⟨ha.send hc h, hc.send h⟩

theorem Quiet.refl (v : View) : Quiet v v :=
  ⟨rfl, rfl, .inl Iff.rfl, rfl, rfl, rfl, rfl, rfl, rfl, rfl, rfl, rfl, rfl, .inl rfl, id⟩

/-! ## The invariant -/

namespace State

/-- Messages for the stream may be read, or its thread may read messages as its own. -/
def Alive (s : State) (i : ℕ) : Prop :=
  i < s.made ∧ (s.Mapped i ∨ s.pipe i ≠ [] ∨ (s.streams i).status ≠ .closed ∨ (s.streams i).pc.Reading)

/-- What is known where the holder of the lock is. -/
def Fits (s : State) (i : ℕ) : ReaderPc → Prop
  | .locked => True
  | .receiving | .handling _ => (s.streams i).transport.messageQueue = []
  | .forwarding f dest => (s.streams i).transport.messageQueue = [] ∧ dest = f.addressee ∧ dest ≠ i ∧
      (s.streams dest).lost = []
  | .enqueuing f dest => (s.streams i).transport.messageQueue = [] ∧ dest = f.addressee ∧ dest ≠ i ∧
      (s.streams dest).lost = [] ∧ (f.message.command = .CLSE → ¬s.Mapped dest)
  | .putting _ dest => (s.streams i).transport.messageQueue = [] ∧ dest ≠ i ∧ dest < s.made

/-- The holder of the lock is inside, and in order. -/
def Holding (s : State) : Prop :=
  ∀ i pos, s.reader = some (i, pos) → (∃ call, (s.streams i).pc = .inside call) ∧ s.Fits i pos

end State

/-- Ids tell the streams apart that are alive, or whose thread is in a call. -/
structure Named (limit : ℕ) (s : State) : Prop extends MapInv limit s where
  frames : ∀ f ∈ s.pending, f.addressee < s.made ∧ f.message.arg1 = (s.streams f.addressee).localId
  unmade : ∀ i, s.made ≤ i → (s.streams i).pc = .dead ∧ (s.streams i).isOpened = false
  ids : ∀ i j, s.Alive i → s.Alive j → (s.streams i).localId = (s.streams j).localId → i = j
  own : ∀ i, (s.streams i).InCall ∨ i ∈ s.closing → ∀ j, s.lookup (s.streams i).localId = some j → j = i
  closing : ∀ i ∈ s.closing, (s.streams i).isOpened = true

structure DeliveryInv (limit : ℕ) (s : State) : Prop extends Named limit s where
  holding : s.Holding
  accounts : ∀ i < s.made, Accounts (s.view i)
  consistent : ∀ i < s.made, Consistent (s.view i)

section Basics

variable {limit : ℕ} {s s' : State} {i j : ℕ}

theorem mapped_of_lookup {id : ℕ} (h : s.lookup id = some i) : s.Mapped i :=
  List.mem_map_of_mem (f := Prod.snd) (mem_of_lookup h)

theorem MapInv.lookup_of_mapped (h : MapInv limit s) (hm : s.Mapped i) :
    s.lookup (s.streams i).localId = some i := by
  obtain ⟨⟨id, n⟩, hmem, rfl⟩ := List.mem_map.mp hm
  rw [h.localId id n hmem]
  exact lookup_of_mem h.nodup hmem

theorem MapInv.made_of_mapped (h : MapInv limit s) (hm : s.Mapped i) : i < s.made := by
  obtain ⟨⟨id, n⟩, hmem, rfl⟩ := List.mem_map.mp hm
  exact h.made id n hmem

theorem MapErases.mapped (h : MapErases s s') (hm : s'.Mapped i) : s.Mapped i := by
  cases h with
  | same h => rwa [State.Mapped, h.map] at hm
  | erased id k j h =>
      rw [State.Mapped, h.map] at hm
      obtain ⟨e, he, rfl⟩ := List.mem_map.mp hm
      exact List.mem_map_of_mem (mem_of_mem_dictErase he)

theorem mem_pipe {m : AdbMessage} : m ∈ s.pipe i ↔ ∃ f ∈ s.pending, f.addressee = i ∧ f.message = m := by
  simp [State.pipe, and_assoc]

/-- What is on its way makes a stream alive. -/
theorem Named.alive_addressee (h : Named limit s) {f : Frame} (hf : f ∈ s.pending) : s.Alive f.addressee :=
  ⟨(h.frames f hf).1, .inr (.inl (List.ne_nil_of_mem (mem_pipe.mpr ⟨f, hf, rfl, rfl⟩)))⟩

/-- The stream under the id of a message is the one that the device means. -/
theorem Named.addressee_of_lookup (h : Named limit s) {f : Frame} (hf : f ∈ s.pending)
    (hi : s.lookup f.message.arg1 = some i) : i = f.addressee := by
  have hid : (s.streams i).localId = f.message.arg1 := h.localId _ _ (mem_of_lookup hi)
  have hmapped := mapped_of_lookup hi
  exact h.ids i f.addressee ⟨h.made_of_mapped hmapped, .inl hmapped⟩ (h.alive_addressee hf)
    (hid.trans (h.frames f hf).2)

/-- A stream that is alive has its own entry, if there is one under its id. -/
theorem Named.own_of_alive (h : Named limit s) (hi : s.Alive i)
    (hj : s.lookup (s.streams i).localId = some j) : j = i := by
  have hmapped := mapped_of_lookup hj
  exact h.ids j i ⟨h.made_of_mapped hmapped, .inl hmapped⟩ hi (h.localId _ _ (mem_of_lookup hj))

theorem Named.made_of_inCall (h : Named limit s) (hi : (s.streams i).InCall) : i < s.made := by
  by_contra hle
  exact hi.1 (h.unmade i (by omega)).1

theorem inCall_of_reading {x : Stream} (h : x.pc.Reading) : x.InCall := by
  constructor
  · intro hpc
    rw [hpc] at h
    exact h
  · intro hpc
    rw [hpc] at h
    exact h

end Basics

/-! ## Who is who -/

/-- What a step may do to the use of a stream. -/
structure Controlled (s s' : State) (i : ℕ) : Prop where
  status : (s'.streams i).status ≠ .closed → (s.streams i).status ≠ .closed
  reading : (s'.streams i).pc.Reading → (s.streams i).pc.Reading ∨ s.Mapped i
  dead : (s.streams i).pc = .dead → (s'.streams i).pc = .dead
  isOpened : (s'.streams i).isOpened = (s.streams i).isOpened ∨
    (s.streams i).pc ≠ .dead ∧ (s'.streams i).isOpened = true
  inUse : (s'.streams i).InCall ∨ i ∈ s'.closing → ((s.streams i).InCall ∨ i ∈ s.closing) ∨
    ∀ j, s.lookup (s.streams i).localId = some j → j = i
  closing : i ∈ s'.closing → i ∈ s.closing ∨ (s.streams i).isOpened = true

section Who

variable {limit : ℕ} {s s' : State}

theorem Controlled.same {i : ℕ} (h : s'.streams i = s.streams i) (hclosing : i ∈ s'.closing → i ∈ s.closing) :
    Controlled s s' i := by
  constructor
  · exact fun hs ↦ h ▸ hs
  · exact fun hr ↦ .inl (h ▸ hr)
  · exact fun hd ↦ h ▸ hd
  · exact .inl (by rw [h])
  · exact fun hu ↦ .inl (hu.imp (fun hc ↦ h ▸ hc) hclosing)
  · exact fun hc ↦ .inl (hclosing hc)

theorem Named.step (h : Named limit s) (hmap : MapErases s s') (hinv : MapInv limit s')
    (hframes : ∀ f ∈ s'.pending, f ∈ s.pending ∨ f.addressee < s.made ∧
      f.message.arg1 = (s.streams f.addressee).localId ∧ (s.streams f.addressee).status ≠ .closed)
    (hstreams : ∀ i, Controlled s s' i) : Named limit s' := by
  have halive : ∀ i, s'.Alive i → s.Alive i := by
    rintro i ⟨hi, halive⟩
    rw [hmap.made] at hi
    refine ⟨hi, ?_⟩
    rcases halive with hm | hpipe | hs | hr
    · exact .inl (hmap.mapped hm)
    · obtain ⟨m, hm⟩ := List.exists_mem_of_ne_nil _ hpipe
      obtain ⟨f, hf, rfl, rfl⟩ := mem_pipe.mp hm
      rcases hframes f hf with hf | ⟨-, -, hs⟩
      · exact (h.alive_addressee hf).2
      · exact .inr (.inr (.inl hs))
    · exact .inr (.inr (.inl ((hstreams i).status hs)))
    · rcases (hstreams i).reading hr with hr | hm
      · exact .inr (.inr (.inr hr))
      · exact .inl hm
  refine ⟨hinv, ?_, ?_, ?_, ?_, ?_⟩
  · intro f hf
    rw [hmap.made, hmap.localId]
    rcases hframes f hf with hf | ⟨hi, hid, -⟩
    · exact h.frames f hf
    · exact ⟨hi, hid⟩
  · intro i hi
    rw [hmap.made] at hi
    obtain ⟨hdead, hclosed⟩ := h.unmade i hi
    refine ⟨(hstreams i).dead hdead, ?_⟩
    rcases (hstreams i).isOpened with heq | ⟨hpc, -⟩
    · exact heq.trans hclosed
    · exact absurd hdead hpc
  · intro i j hi hj hid
    rw [hmap.localId, hmap.localId] at hid
    exact h.ids i j (halive i hi) (halive j hj) hid
  · intro i hi j hj
    rw [hmap.localId] at hj
    rcases (hstreams i).inUse hi with hi | hown
    · exact h.own i hi j (hmap.lookup hj)
    · exact hown j (hmap.lookup hj)
  · intro i hi
    have hopened : (s.streams i).isOpened = true := by
      rcases (hstreams i).closing hi with hi | ho
      · exact h.closing i hi
      · exact ho
    rcases (hstreams i).isOpened with heq | ⟨-, ho⟩
    · exact heq.trans hopened
    · exact ho

end Who

/-! ## Views -/

section Views

variable {s s' : State} {i j : ℕ}

theorem view_eq {x : Stream} {pipe putting : List AdbMessage} {mapped : Prop} (hstream : s.streams i = x)
    (hpipe : s.pipe i = pipe) (hputting : s.putting i = putting) (hmapped : s.Mapped i ↔ mapped) :
    s.view i = ⟨x, pipe, putting, mapped⟩ := by
  rw [State.view, hstream, hpipe, hputting, propext hmapped]

/-- A step that leaves a stream and what is on its way alone. -/
theorem viewStep_same (hstream : s'.streams i = s.streams i) (hpipe : s'.pipe i = s.pipe i)
    (hputting : s'.putting i = s.putting i) (hmapped : s'.Mapped i ↔ s.Mapped i) :
    ViewStep (s.view i) (s'.view i) := by
  rw [view_eq hstream hpipe hputting hmapped]
  exact .quiet (.refl _)

theorem streams_modify_self (f : Stream → Stream) : (s.modify i f).streams i = f (s.streams i) := by
  simp [State.modify]

theorem streams_modify_ne (h : j ≠ i) (f : Stream → Stream) : (s.modify i f).streams j = s.streams j := by
  simp [State.modify, h]

theorem view_modify_self (f : Stream → Stream) :
    (s.modify i f).view i = { s.view i with stream := f (s.streams i) } := by
  rw [State.view, streams_modify_self]
  rfl

theorem view_modify_ne (h : j ≠ i) (f : Stream → Stream) : (s.modify i f).view j = s.view j := by
  rw [State.view, streams_modify_ne h]
  rfl

/-- Only the stream of one thread is changed. -/
theorem viewStep_modify {f : Stream → Stream}
    (h : ViewStep (s.view i) { s.view i with stream := f (s.streams i) }) (j : ℕ) :
    ViewStep (s.view j) ((s.modify i f).view j) := by
  by_cases hj : j = i
  · subst hj
    rwa [view_modify_self]
  · rw [view_modify_ne hj]
    exact .quiet (.refl _)

end Views

/-! ## A thread without the lock -/

section Quiet

variable {v : View} {x : Stream} {call : Call}

/-- A call moves on, takes messages from the queue or ends with an error. -/
theorem quiet_requeue {p : Pc} {queue : List AdbMessage} {errors : List StreamError}
    (hheld : p.toHandle ++ queue = v.stream.pc.toHandle ++ v.stream.transport.messageQueue)
    (hopening : p.Opening → v.stream.pc.Opening) :
    Quiet v { v with
      stream.pc := p
      stream.transport.messageQueue := queue
      stream.errors := errors } where
  pipe := rfl
  held := congrArg (· ++ v.putting) hheld
  mapped := .inl Iff.rfl
  wrtes := rfl
  received := rfl
  lost := rfl
  bytes := rfl
  okays := rfl
  status := rfl
  deviceId := rfl
  localId := rfl
  remote := rfl
  isOpened := rfl
  closedState := .inl rfl
  opening := hopening

theorem quiet_setPc {p : Pc} (hgot : p.toHandle = v.stream.pc.toHandle)
    (hopening : p.Opening → v.stream.pc.Opening) : Quiet v { v with stream := v.stream.setPc p } := by
  apply quiet_requeue
  · rw [hgot]
  · exact hopening

theorem quiet_raise (hgot : v.stream.pc.toHandle = []) (e : StreamError) :
    Quiet v { v with stream := v.stream.raise call e } := by
  apply quiet_requeue
  · rw [hgot]
    split <;> rfl
  · split <;> exact False.elim

theorem quiet_pop {m : AdbMessage} {rest : List AdbMessage} (hgot : v.stream.pc.toHandle = [])
    (hqueue : v.stream.transport.messageQueue = m :: rest) (hopening : call = .ensureOpened → v.stream.pc.Opening) :
    Quiet v { v with stream := v.stream.pop call m rest } := by
  apply quiet_requeue
  · rw [hgot, hqueue]
    rfl
  · exact hopening

theorem quiet_returnData (hgot : v.stream.pc.toHandle = []) (length : ℕ) :
    Quiet v { v with stream := v.stream.returnData length } where
  pipe := rfl
  held := by
    rw [View.held, View.held, hgot]
    rfl
  mapped := .inl Iff.rfl
  wrtes := rfl
  received := rfl
  lost := rfl
  bytes := by
    rw [Stream.returnData, List.append_assoc, ReadBuffer.take_append_contents]
  okays := rfl
  status := rfl
  deviceId := rfl
  localId := rfl
  remote := rfl
  isOpened := rfl
  closedState := .inl rfl
  opening := False.elim

end Quiet

/-- What a thread does to its own stream. -/
structure OwnStep (v : View) (x : Stream) : Prop where
  view : ViewStep v { v with stream := x }
  lost : x.lost = v.stream.lost
  status : x.status = v.stream.status
  localId : x.localId = v.stream.localId
  reading : x.pc.Reading → v.stream.pc.Reading ∨ v.mapped
  isOpened : x.isOpened = v.stream.isOpened ∨ x.isOpened = true

section Own

variable {limit : ℕ} {s : State} {i : ℕ} {call : Call}

theorem OwnStep.quiet {v : View} {x : Stream} (h : Quiet v { v with stream := x })
    (hreading : x.pc.Reading → v.stream.pc.Reading ∨ v.mapped) : OwnStep v x :=
  ⟨.quiet h, h.lost, h.status, h.localId, hreading, .inl h.isOpened⟩

theorem OwnStep.handle {v : View} {x : Stream} {m : AdbMessage} (hpc : v.stream.pc = .got call m)
    (h : Handled m v.stream x) : OwnStep v x where
  view := .handled hpc h
  lost := h.lost
  status := h.status
  localId := h.localId
  reading hr := absurd hr h.reading
  isOpened := h.isOpened.imp_right And.right

/-- What it does where it needs nothing but its stream. -/
theorem ownStep_next {v : View} {x : Stream} (hc : Consistent v) (h : v.stream.next = some x) : OwnStep v x := by
  unfold Stream.next at h
  split at h
  · -- the head of the loop
    rename_i call hpc
    obtain rfl := Option.some.inj h
    have hgot : v.stream.pc.toHandle = [] := by rw [hpc]; rfl
    have hopening : call = .ensureOpened → v.stream.pc.Opening := by
      rw [hpc]
      exact id
    unfold Stream.loop
    split
    · split
      · exact .quiet (quiet_returnData hgot _) False.elim
      · exact .quiet (quiet_setPc hgot.symm hopening) False.elim
    · split
      · exact .quiet (quiet_setPc hgot.symm hopening) False.elim
      · exact .quiet (quiet_setPc hgot.symm False.elim) False.elim
    · exact .quiet (quiet_setPc hgot.symm hopening) False.elim
  · rename_i call hpc
    have hgot : v.stream.pc.toHandle = [] := by rw [hpc]; rfl
    have hopening : call = .ensureOpened → v.stream.pc.Opening := by
      rw [hpc]
      exact id
    have hreading : v.stream.pc.Reading := by
      rw [hpc]
      exact trivial
    split at h
    · obtain rfl := Option.some.inj h
      exact .quiet (quiet_setPc hgot.symm hopening) fun _ ↦ .inl hreading
    · obtain rfl := Option.some.inj h
      exact .quiet (quiet_pop hgot ‹_› hopening) False.elim
  · rename_i call hpc
    have hgot : v.stream.pc.toHandle = [] := by rw [hpc]; rfl
    have hopening : call = .ensureOpened → v.stream.pc.Opening := by
      rw [hpc]
      exact id
    split at h
    · obtain rfl := Option.some.inj h
      refine .quiet (quiet_raise hgot _) ?_
      rw [Stream.raise]
      split <;> exact False.elim
    · obtain rfl := Option.some.inj h
      exact .quiet (quiet_pop hgot ‹_› hopening) False.elim
  · rename_i call m hpc
    obtain rfl := Option.some.inj h
    have hmem : m ∈ v.line := by simp [View.line, View.held_of_got hpc]
    refine .handle hpc (handled_handleMessage (fun hokay ↦ ?_) (hc.known m hmem) ?_)
    · obtain ⟨hid, hne⟩ := hc.stamped m hmem hokay
      rwa [hid]
    · -- The first message is not a WRTE.
      rintro hwrte rfl
      have hopening : v.stream.pc.Opening := by
        rw [hpc]
        exact rfl
      refine (hc.front (.inl hopening)).2 m ?_ hwrte
      rw [View.line, View.held_of_got hpc]
      rfl
  · cases h

theorem State.Fits.mono {s s' : State} {pos : ReaderPc} (h : s.Fits i pos)
    (hqueue : (s'.streams i).transport.messageQueue = (s.streams i).transport.messageQueue)
    (hlost : ∀ d, (s.streams d).lost = [] → (s'.streams d).lost = [])
    (hmapped : ∀ f ∈ pos.hand, s'.Mapped f.addressee → s.Mapped f.addressee) (hmade : s.made ≤ s'.made) :
    s'.Fits i pos := by
  cases pos with
  | locked => trivial
  | receiving => exact hqueue.trans h
  | handling f => exact hqueue.trans h
  | forwarding f dest => exact ⟨hqueue.trans h.1, h.2.1, h.2.2.1, hlost dest h.2.2.2⟩
  | enqueuing f dest =>
      obtain ⟨hempty, rfl, hne, hnone, hclse⟩ := h
      exact ⟨hqueue.trans hempty, rfl, hne, hlost _ hnone,
        fun hc hm ↦ hclse hc (hmapped f List.mem_cons_self hm)⟩
  | putting f dest => exact ⟨hqueue.trans h.1, h.2.1, h.2.2.trans_le hmade⟩

/-- A thread that does not hold the lock changes its own stream. -/
theorem DeliveryInv.move (h : DeliveryInv limit s) {f : Stream → Stream} (hdead : (s.streams i).pc ≠ .dead)
    (hown : ∀ j, s.lookup (s.streams i).localId = some j → j = i)
    (hnot : ∀ call, (s.streams i).pc ≠ .inside call) (hstep : OwnStep (s.view i) (f (s.streams i))) :
    DeliveryInv limit (s.modify i f) := by
  have hsame : SameMap s (s.modify i f) := (SameMap.refl s).modify hstep.localId
  have hlost : ∀ d, (s.streams d).lost = [] → ((s.modify i f).streams d).lost = [] := by
    intro d hnone
    by_cases hd : d = i
    · subst hd
      rw [streams_modify_self]
      exact hstep.lost.trans hnone
    · rwa [streams_modify_ne hd]
  have hviews := fun j hj ↦ (viewStep_modify hstep.view j).keeps (h.accounts j hj) (h.consistent j hj)
  refine ⟨h.toNamed.step (.same hsame) (h.toMapInv.same hsame) (fun f hf ↦ .inl hf) ?_, ?_,
    fun j hj ↦ (hviews j hj).1, fun j hj ↦ (hviews j hj).2⟩
  · intro j
    by_cases hj : j = i
    · subst hj
      have hx : (s.modify j f).streams j = f (s.streams j) := streams_modify_self f
      constructor
      · rw [hx, hstep.status]
        exact id
      · rw [hx]
        exact hstep.reading
      · exact fun hpc ↦ absurd hpc hdead
      · rw [hx]
        exact hstep.isOpened.imp_right fun ho ↦ ⟨hdead, ho⟩
      · exact fun _ ↦ .inr hown
      · exact .inl
    · exact .same (streams_modify_ne hj f) id
  · intro k pos hreader
    obtain ⟨⟨call, hinside⟩, hfits⟩ := h.holding k pos hreader
    have hk : k ≠ i := by
      rintro rfl
      exact hnot call hinside
    rw [streams_modify_ne hk]
    exact ⟨⟨call, hinside⟩, hfits.mono (by rw [streams_modify_ne hk]) hlost (fun _ _ hm ↦ hm) (Nat.le_refl _)⟩

end Own

end OpenHtf.Adb
