import OpenHtf.AdbConnection

/-!
# What is on its way to one ADB stream

A stream together with the messages for it that nobody has accepted yet, those
that are about to be put into its queue, and whether the map has it.  The
invariant accounts for every payload and keeps the answer to OPEN in front.
-/

set_option autoImplicit false

namespace OpenHtf.Adb

namespace Pc

/-- The message that the thread has to handle. -/
def toHandle : Pc → List AdbMessage
  | got _ m => [m]
  | _ => []

/-- The thread waits for the answer to OPEN. -/
def Opening : Pc → Prop
  | looping call | polling call | waiting call | locking call | inside call | leaving call | got call _ =>
    call = .ensureOpened
  | _ => False

/-- The thread may read a message as its own. -/
def Reading : Pc → Prop
  | waiting _ | locking _ | inside _ => True
  | _ => False

end Pc

/-- A stream, the messages for it that nobody has accepted and those that are about
to be put into its queue. -/
structure View where
  stream : Stream
  pipe : List AdbMessage
  putting : List AdbMessage
  mapped : Prop

def payloads (ms : List AdbMessage) : List (List UInt8) := ms.flatMap Stream.payload

def okays (ms : List AdbMessage) : List AdbMessage := ms.filter (·.command = .OKAY)

namespace View

/-- The messages that are accepted and not handled. -/
def held (v : View) : List AdbMessage :=
  v.stream.pc.toHandle ++ v.stream.transport.messageQueue ++ v.putting

/-- All messages that are not handled, in the order in which they were sent. -/
def line (v : View) : List AdbMessage := v.held ++ v.pipe

def remote (v : View) : Option ℕ := v.stream.transport.remote

/-- The first message is not a WRTE, and if there is none, then the device does not write. -/
def Fronted (v : View) : Prop :=
  (v.line = [] → v.stream.status ≠ .opened) ∧ ∀ m, v.line.head? = some m → m.command ≠ .WRTE

end View

/-- An acknowledgement of a WRTE for the stream. -/
def Stream.ack (x : Stream) : AdbMessage := ⟨.OKAY, x.localId, x.deviceId, []⟩

/-- What was written was accepted, is lost or is still on its way, and what was
accepted was returned, is in the buffer or is not handled; each is in order. -/
structure Accounts (v : View) : Prop where
  wrtes : v.stream.wrtes = v.stream.received ++ v.stream.lost ++ payloads v.pipe
  bytes : v.stream.received.flatten =
    v.stream.returned ++ v.stream.transport.readBuffer.contents ++ (payloads v.held).flatten
  acks : okays v.stream.sent = v.stream.received.map fun _ ↦ v.stream.ack

/-- How the ids, the states and the messages of a stream go together. -/
structure Consistent (v : View) : Prop where
  lost : v.mapped → v.stream.lost = []
  asked : v.stream.status = .asked → v.line = [] ∧ v.remote = none ∧ v.stream.received = []
  opened : v.stream.status = .opened → v.stream.deviceId ≠ 0
  known : ∀ m ∈ v.line, m.command ∈ [Command.OKAY, .CLSE, .WRTE]
  stamped : ∀ m ∈ v.line, m.command = .OKAY → m.arg0 = v.stream.deviceId ∧ v.stream.deviceId ≠ 0
  remote : ∀ id, v.remote = some id → id = v.stream.deviceId
  isOpen : v.stream.transport.closedState = .OPEN → v.remote ≠ none
  isOpened : v.stream.isOpened = true → v.remote ≠ none
  pending : v.mapped → v.remote = none → v.stream.transport.closedState = .PENDING
  opening : v.stream.pc.Opening → v.stream.isOpened = false
  closes : ∀ m ∈ v.held, m.command = .CLSE → ¬v.mapped
  last : v.pipe.Pairwise fun m _ ↦ m.command ≠ .CLSE
  closed : ∀ m ∈ v.pipe, m.command = .CLSE → v.stream.status = .closed
  unmapped : ¬v.mapped → v.stream.isOpened = false →
    v.stream.status = .closed ∧ ∀ m ∈ v.pipe, m.command = .CLSE
  front : v.stream.pc.Opening ∨ v.mapped ∧ v.remote = none → v.Fronted

section Lemmas

@[simp] theorem payloads_nil : payloads [] = [] := rfl

@[simp] theorem payloads_cons (m : AdbMessage) (ms : List AdbMessage) :
    payloads (m :: ms) = Stream.payload m ++ payloads ms := rfl

@[simp] theorem payloads_append (ms ms' : List AdbMessage) :
    payloads (ms ++ ms') = payloads ms ++ payloads ms' := List.flatMap_append

@[simp] theorem okays_append (ms ms' : List AdbMessage) : okays (ms ++ ms') = okays ms ++ okays ms' :=
  List.filter_append ms ms'

theorem payload_of_ne {m : AdbMessage} (h : m.command ≠ .WRTE) : Stream.payload m = [] := if_neg h

theorem payload_wrte {m : AdbMessage} (h : m.command = .WRTE) : Stream.payload m = [m.data] := if_pos h

end Lemmas

/-! ## Nothing is accepted or handled -/

/-- The stream may move, take messages from its queue, be marked as closed, and be
removed from the map: by a call of its `close`, or because of a CLSE. -/
structure Quiet (v v' : View) : Prop where
  pipe : v'.pipe = v.pipe
  held : v'.held = v.held
  mapped : (v'.mapped ↔ v.mapped) ∨ ¬v'.mapped ∧ (v.stream.isOpened = true ∨
    ∃ m rest, v.pipe = m :: rest ∧ m.command = .CLSE)
  wrtes : v'.stream.wrtes = v.stream.wrtes
  received : v'.stream.received = v.stream.received
  lost : v'.stream.lost = v.stream.lost
  bytes : v'.stream.returned ++ v'.stream.transport.readBuffer.contents =
    v.stream.returned ++ v.stream.transport.readBuffer.contents
  okays : okays v'.stream.sent = okays v.stream.sent
  status : v'.stream.status = v.stream.status
  deviceId : v'.stream.deviceId = v.stream.deviceId
  localId : v'.stream.localId = v.stream.localId
  remote : v'.remote = v.remote
  isOpened : v'.stream.isOpened = v.stream.isOpened
  closedState : v'.stream.transport.closedState = v.stream.transport.closedState ∨
    v.stream.isOpened = true ∧ v'.stream.transport.closedState = .CLOSED
  opening : v'.stream.pc.Opening → v.stream.pc.Opening

namespace Quiet

variable {v v' : View}

theorem line (h : Quiet v v') : v'.line = v.line := by rw [View.line, h.held, h.pipe, View.line]

theorem ack (h : Quiet v v') : v'.stream.ack = v.stream.ack := by
  rw [Stream.ack, h.localId, h.deviceId, Stream.ack]

theorem mapped_of (h : Quiet v v') (hmapped : v'.mapped) : v.mapped := by
  rcases h.mapped with hiff | ⟨hnot, -⟩
  · exact hiff.mp hmapped
  · exact absurd hmapped hnot

theorem accounts (h : Quiet v v') (ha : Accounts v) : Accounts v' where
  wrtes := by rw [h.wrtes, ha.wrtes, h.received, h.lost, h.pipe]
  bytes := by rw [h.received, ha.bytes, h.bytes, h.held]
  acks := by rw [h.okays, ha.acks, h.received, h.ack]

theorem consistent (h : Quiet v v') (hc : Consistent v) : Consistent v' where
  lost hm := by rw [h.lost, hc.lost (h.mapped_of hm)]
  asked hs := by
    rw [h.line, h.remote, h.received]
    exact hc.asked (h.status ▸ hs)
  opened hs := by
    rw [h.deviceId]
    exact hc.opened (h.status ▸ hs)
  known m hm := hc.known m (h.line ▸ hm)
  stamped m hm := by
    rw [h.deviceId]
    exact hc.stamped m (h.line ▸ hm)
  remote id hid := by
    rw [h.deviceId]
    exact hc.remote id (h.remote ▸ hid)
  isOpen ho := by
    rw [h.remote]
    rcases h.closedState with heq | ⟨-, hclosed⟩
    · exact hc.isOpen (heq ▸ ho)
    · rw [hclosed] at ho
      cases ho
  isOpened ho := by
    rw [h.remote]
    exact hc.isOpened (h.isOpened ▸ ho)
  pending hm hr := by
    rw [h.remote] at hr
    rcases h.closedState with heq | ⟨hopened, -⟩
    · rw [heq]
      exact hc.pending (h.mapped_of hm) hr
    · exact absurd hr (hc.isOpened hopened)
  opening ho := by
    rw [h.isOpened]
    exact hc.opening (h.opening ho)
  closes m hm hclse hmapped := hc.closes m (h.held ▸ hm) hclse (h.mapped_of hmapped)
  last := by
    rw [h.pipe]
    exact hc.last
  closed m hm hclse := by
    rw [h.status]
    exact hc.closed m (h.pipe ▸ hm) hclse
  unmapped hm ho := by
    rw [h.status, h.pipe]
    rw [h.isOpened] at ho
    rcases h.mapped with hiff | ⟨-, hopened | ⟨m, rest, hpipe, hclse⟩⟩
    · exact hc.unmapped (fun hmapped ↦ hm (hiff.mpr hmapped)) ho
    · rw [ho] at hopened
      cases hopened
    · -- A CLSE is the last message.
      have hlast := hc.last
      rw [hpipe] at hlast ⊢
      refine ⟨hc.closed m (by simp [hpipe]) hclse, fun m' hm' ↦ ?_⟩
      rcases List.mem_cons.mp hm' with rfl | hm'
      · exact hclse
      · exact absurd hclse ((List.pairwise_cons.mp hlast).1 m' hm')
  front ho := by
    have hfront := hc.front (ho.imp h.opening fun ⟨hm, hr⟩ ↦ ⟨h.mapped_of hm, h.remote ▸ hr⟩)
    rwa [View.Fronted, h.line, h.status]

end Quiet

/-! ## The remote id -/

namespace StreamTransport

variable {t t' : StreamTransport} {id : ℕ}

theorem setOrCheckRemoteId_ok (h : t.setOrCheckRemoteId id = .ok t') :
    t.remote = some id ∧ t' = t ∨ t.remote = none ∧ t.closedState = .PENDING ∧
      t' = { t with remoteId := some id, closedState := .OPEN } := by
  unfold setOrCheckRemoteId at h
  split at h
  · split at h
    · exact .inr ⟨‹_›, ‹_›, (Except.ok.inj h).symm⟩
    · cases h
  · split at h
    · rename_i hremote heq
      exact .inl ⟨heq ▸ hremote, (Except.ok.inj h).symm⟩
    · cases h

theorem setOrCheckRemoteId_error {e : StreamError} (h : t.setOrCheckRemoteId id = .error e) :
    t.remote = none ∧ t.closedState ≠ .PENDING ∨ ∃ id', t.remote = some id' ∧ id' ≠ id := by
  unfold setOrCheckRemoteId at h
  split at h
  · split at h
    · cases h
    · exact .inl ⟨‹_›, ‹_›⟩
  · split at h
    · cases h
    · exact .inr ⟨_, ‹_›, ‹_›⟩

theorem remote_of_ne_zero (hid : id ≠ 0) (state : ClosedState) :
    ({ t with remoteId := some id, closedState := state } : StreamTransport).remote = some id := by
  unfold remote
  split
  · rename_i heq
    exact absurd (Option.some.inj heq) hid
  · rfl

end StreamTransport

/-! ## A message is accepted -/

/-- The next message is accepted; an OKAY may set the remote id. -/
structure Taken (m : AdbMessage) (v v' : View) : Prop where
  pipe : v.pipe = m :: v'.pipe
  held : v'.held = v.held ++ [m]
  mapped : v'.mapped → v.mapped
  unmapped : ¬v'.mapped → ¬v.mapped ∨ m.command = .CLSE
  closes : m.command = .CLSE → ¬v'.mapped
  wrtes : v'.stream.wrtes = v.stream.wrtes
  received : v'.stream.received = v.stream.received ++ Stream.payload m
  lost : v'.stream.lost = v.stream.lost
  lostNone : m.command = .WRTE → v.stream.lost = []
  returned : v'.stream.returned = v.stream.returned
  readBuffer : v'.stream.transport.readBuffer = v.stream.transport.readBuffer
  okays : okays v'.stream.sent = okays v.stream.sent ++ (Stream.payload m).map fun _ ↦ v.stream.ack
  status : v'.stream.status = v.stream.status
  deviceId : v'.stream.deviceId = v.stream.deviceId
  localId : v'.stream.localId = v.stream.localId
  remote : v'.remote = v.remote ∧
    v'.stream.transport.closedState = v.stream.transport.closedState ∨ v'.remote = some v.stream.deviceId
  isOpened : v'.stream.isOpened = v.stream.isOpened
  opening : v'.stream.pc.Opening → v.stream.pc.Opening

namespace Taken

variable {m : AdbMessage} {v v' : View}

theorem line (h : Taken m v v') : v'.line = v.line := by
  rw [View.line, h.held, View.line, h.pipe, List.append_assoc, List.singleton_append]

theorem ack (h : Taken m v v') : v'.stream.ack = v.stream.ack := by
  rw [Stream.ack, h.localId, h.deviceId, Stream.ack]

theorem mem_line (h : Taken m v v') : m ∈ v.line := by simp [View.line, h.pipe]

theorem accounts (h : Taken m v v') (ha : Accounts v) : Accounts v' where
  wrtes := by
    rw [h.wrtes, ha.wrtes, h.received, h.lost, h.pipe, payloads_cons]
    by_cases hm : m.command = .WRTE
    · simp [h.lostNone hm]
    · simp [payload_of_ne hm]
  bytes := by
    rw [h.received, List.flatten_append, ha.bytes, h.returned, h.readBuffer, h.held]
    simp
  acks := by
    rw [h.okays, ha.acks, h.received, List.map_append, h.ack]

theorem consistent (h : Taken m v v') (hc : Consistent v) : Consistent v' where
  lost hm := by rw [h.lost, hc.lost (h.mapped hm)]
  asked hs := by
    have hline := (hc.asked (h.status ▸ hs)).1
    exact absurd h.mem_line (hline ▸ List.not_mem_nil)
  opened hs := by
    rw [h.deviceId]
    exact hc.opened (h.status ▸ hs)
  known m' hm := hc.known m' (h.line ▸ hm)
  stamped m' hm := by
    rw [h.deviceId]
    exact hc.stamped m' (h.line ▸ hm)
  remote id hid := by
    rw [h.deviceId]
    rcases h.remote with ⟨heq, -⟩ | heq
    · exact hc.remote id (heq ▸ hid)
    · exact (Option.some.inj (heq.symm.trans hid)).symm
  isOpen ho := by
    rcases h.remote with ⟨heq, hstate⟩ | heq
    · rw [heq]
      exact hc.isOpen (hstate ▸ ho)
    · simp [heq]
  isOpened ho := by
    rcases h.remote with ⟨heq, -⟩ | heq
    · rw [heq]
      exact hc.isOpened (h.isOpened ▸ ho)
    · simp [heq]
  pending hm hr := by
    rcases h.remote with ⟨heq, hstate⟩ | heq
    · rw [hstate]
      exact hc.pending (h.mapped hm) (heq ▸ hr)
    · simp [heq] at hr
  opening ho := by
    rw [h.isOpened]
    exact hc.opening (h.opening ho)
  closes m' hm hclse hmapped := by
    rw [h.held] at hm
    rcases List.mem_append.mp hm with hm | hm
    · exact hc.closes m' hm hclse (h.mapped hmapped)
    · obtain rfl := List.mem_singleton.mp hm
      exact h.closes hclse hmapped
  last := by
    have hlast := hc.last
    rw [h.pipe] at hlast
    exact hlast.tail
  closed m' hm hclse := by
    rw [h.status]
    exact hc.closed m' (by simp [h.pipe, hm]) hclse
  unmapped hm ho := by
    rw [h.status]
    rw [h.isOpened] at ho
    rcases h.unmapped hm with hnot | hclse
    · obtain ⟨hstatus, hall⟩ := hc.unmapped hnot ho
      exact ⟨hstatus, fun m' hm' ↦ hall m' (by simp [h.pipe, hm'])⟩
    · have hlast := hc.last
      rw [h.pipe] at hlast
      refine ⟨hc.closed m (by simp [h.pipe]) hclse, fun m' hm' ↦ ?_⟩
      exact absurd hclse ((List.pairwise_cons.mp hlast).1 m' hm')
  front ho := by
    have hbefore : v.stream.pc.Opening ∨ v.mapped ∧ v.remote = none := by
      refine ho.imp h.opening fun ⟨hm, hr⟩ ↦ ⟨h.mapped hm, ?_⟩
      rcases h.remote with ⟨heq, -⟩ | heq
      · exact heq ▸ hr
      · simp [heq] at hr
    have hfront := hc.front hbefore
    rwa [View.Fronted, h.line, h.status]

end Taken

/-- What is sent for a message that is accepted. -/
def Acknowledged (m : AdbMessage) (t : StreamTransport) (out : List AdbMessage) : Prop :=
  m.command = .WRTE ∧ (∃ id, t.remote = some id ∧ out = [t.okay id]) ∨ m.command ≠ .WRTE ∧ out = []

/-- Only the remote id and the state of a transport may have changed. -/
structure StreamTransport.IdSet (m : AdbMessage) (t t' : StreamTransport) : Prop where
  localId : t'.localId = t.localId
  messageQueue : t'.messageQueue = t.messageQueue
  readBuffer : t'.readBuffer = t.readBuffer
  remote : t'.remote = t.remote ∧ t'.closedState = t.closedState ∨
    m.command = .OKAY ∧ t'.remote = some m.arg0

/-- What `enqueue_message` accepts, it acknowledges. -/
theorem StreamTransport.acknowledge_ok {m : AdbMessage} {out : List AdbMessage} {t t' : StreamTransport}
    (hid : m.command = .OKAY → m.arg0 ≠ 0) (h : t.acknowledge m = .ok (out, t')) :
    IdSet m t t' ∧ Acknowledged m t out := by
  unfold acknowledge at h
  split at h
  · rename_i hwrte
    split at h
    · cases h
    · obtain ⟨rfl, rfl⟩ := Prod.mk.inj (Except.ok.inj h)
      exact ⟨⟨rfl, rfl, rfl, .inl ⟨rfl, rfl⟩⟩, .inl ⟨hwrte, _, ‹_›, rfl⟩⟩
  · rename_i hokay
    cases hset : t.setOrCheckRemoteId m.arg0 with
    | error e => simp [hset, Except.map] at h
    | ok t₁ =>
        rw [hset] at h
        obtain ⟨rfl, rfl⟩ := Prod.mk.inj (Except.ok.inj h)
        refine ⟨?_, .inr ⟨by rw [hokay]; exact nofun, rfl⟩⟩
        rcases setOrCheckRemoteId_ok hset with ⟨-, rfl⟩ | ⟨-, -, rfl⟩
        · exact ⟨rfl, rfl, rfl, .inl ⟨rfl, rfl⟩⟩
        · exact ⟨rfl, rfl, rfl, .inr ⟨hokay, remote_of_ne_zero (hid hokay) .OPEN⟩⟩
  · obtain ⟨rfl, rfl⟩ := Prod.mk.inj (Except.ok.inj h)
    exact ⟨⟨rfl, rfl, rfl, .inl ⟨rfl, rfl⟩⟩, .inr ⟨‹_›, rfl⟩⟩

theorem StreamTransport.IdSet.refl (m : AdbMessage) (t : StreamTransport) : IdSet m t t :=
  ⟨rfl, rfl, rfl, .inl ⟨rfl, rfl⟩⟩

theorem Acknowledged.okays {m : AdbMessage} {out : List AdbMessage} {v : View}
    (h : Acknowledged m v.stream.transport out) (hc : Consistent v) :
    okays out = (Stream.payload m).map fun _ ↦ v.stream.ack := by
  rcases h with ⟨hwrte, id, hid, rfl⟩ | ⟨hne, rfl⟩
  · obtain rfl := hc.remote id hid
    rw [payload_wrte hwrte]
    rfl
  · rw [payload_of_ne hne]
    rfl

/-- A message that is acknowledged is accepted. -/
theorem Taken.of_accept {m : AdbMessage} {out : List AdbMessage} {t : StreamTransport} {p : Pc} {v v' : View}
    (hc : Consistent v) (hpipe : v.pipe = m :: v'.pipe) (hheld : v'.held = v.held ++ [m])
    (hstream : v'.stream = (v.stream.accept m out t).setPc p) (hmapped : v'.mapped = v.mapped)
    (hclse : m.command = .CLSE → ¬v.mapped) (hlost : m.command = .WRTE → v.stream.lost = [])
    (hset : StreamTransport.IdSet m v.stream.transport t) (hout : Acknowledged m v.stream.transport out)
    (hopening : p.Opening → v.stream.pc.Opening) : Taken m v v' := by
  obtain ⟨x, pipe, putting, mapped⟩ := v'
  obtain rfl : x = (v.stream.accept m out t).setPc p := hstream
  obtain rfl : mapped = v.mapped := hmapped
  have hmem : m ∈ v.line := by simp [View.line, hpipe]
  refine ⟨hpipe, hheld, id, .inl, hclse, rfl, rfl, rfl, hlost, rfl, hset.readBuffer, ?_, rfl, rfl,
    hset.localId, ?_, rfl, hopening⟩
  · rw [← hout.okays hc]
    exact okays_append _ _
  · refine hset.remote.imp_right fun ⟨hokay, hsome⟩ ↦ ?_
    rw [← (hc.stamped m hmem hokay).1]
    exact hsome

/-! ## A message is dropped -/

section Drop

variable {m : AdbMessage} {rest : List AdbMessage} {v : View}

/-- The next message, of a stream that the map does not have, is dropped. -/
def View.drop (m : AdbMessage) (rest : List AdbMessage) (v : View) : View :=
  { v with stream := v.stream.lose m, pipe := rest }

theorem Accounts.drop (h : Accounts v) (hpipe : v.pipe = m :: rest) : Accounts (v.drop m rest) where
  wrtes := by
    refine h.wrtes.trans ?_
    rw [hpipe]
    simp [View.drop, Stream.lose]
  bytes := h.bytes
  acks := h.acks

theorem Consistent.drop (h : Consistent v) (hpipe : v.pipe = m :: rest) (hm : ¬v.mapped) :
    Consistent (v.drop m rest) := by
  have hline : ∀ m' ∈ (v.drop m rest).line, m' ∈ v.line := by
    intro m' hm'
    rcases List.mem_append.mp hm' with hm' | hm'
    · exact List.mem_append.mpr (.inl hm')
    · exact List.mem_append.mpr (.inr (by simpa [hpipe] using .inr hm'))
  have hpipe' : ∀ m' ∈ rest, m' ∈ v.pipe := fun m' hm' ↦ by simp [hpipe, hm']
  have hlast := h.last
  rw [hpipe] at hlast
  constructor
  case lost => exact fun hmapped ↦ absurd hmapped hm
  case asked =>
      intro hs
      have hnil := (h.asked hs).1
      simp [View.line, hpipe] at hnil
  case opened => exact h.opened
  case known => exact fun m' hm' ↦ h.known m' (hline m' hm')
  case stamped => exact fun m' hm' ↦ h.stamped m' (hline m' hm')
  case remote => exact h.remote
  case isOpen => exact h.isOpen
  case isOpened => exact h.isOpened
  case pending => exact fun hmapped ↦ absurd hmapped hm
  case opening => exact h.opening
  case closes => exact h.closes
  case last => exact hlast.tail
  case closed => exact fun m' hm' ↦ h.closed m' (hpipe' m' hm')
  case unmapped =>
      intro hnot ho
      obtain ⟨hstatus, hall⟩ := h.unmapped hnot ho
      exact ⟨hstatus, fun m' hm' ↦ hall m' (hpipe' m' hm')⟩
  case front =>
      rintro (ho | ⟨hmapped, -⟩)
      · -- The CLSE that removed the stream was the last message.
        obtain ⟨hstatus, hall⟩ := h.unmapped hm (h.opening ho)
        have hhead := (h.front (.inl ho)).2
        refine ⟨fun _ ↦ by rw [View.drop, Stream.lose, hstatus]; exact nofun, fun m' hm' ↦ ?_⟩
        change (v.held ++ rest).head? = some m' at hm'
        cases hheld : v.held with
        | nil =>
            rw [hheld, List.nil_append] at hm'
            rw [hall m' (hpipe' m' (List.mem_of_mem_head? hm'))]
            exact nofun
        | cons first more =>
            rw [hheld] at hm'
            refine hhead m' ?_
            rw [View.line, hheld]
            exact hm'
      · exact absurd hmapped hm

end Drop

/-! ## A message is handled -/

/-- The thread of the stream has handled a message, or has raised an error. -/
structure Handled (m : AdbMessage) (x x' : Stream) : Prop where
  toHandle : x'.pc.toHandle = []
  opening : ¬x'.pc.Opening
  reading : ¬x'.pc.Reading
  messageQueue : x'.transport.messageQueue = x.transport.messageQueue
  wrtes : x'.wrtes = x.wrtes
  received : x'.received = x.received
  lost : x'.lost = x.lost
  returned : x'.returned = x.returned
  contents : x'.transport.readBuffer.contents = x.transport.readBuffer.contents ++ (Stream.payload m).flatten
  sent : x'.sent = x.sent
  status : x'.status = x.status
  deviceId : x'.deviceId = x.deviceId
  localId : x'.localId = x.localId
  remote : x'.transport.remote = x.transport.remote ∧
    (x'.transport.closedState = x.transport.closedState ∨
      m.command = .CLSE ∧ x'.transport.closedState = .CLOSED) ∨
    m.command = .OKAY ∧ x'.transport.remote = some m.arg0
  answered : m.command = .OKAY → x'.transport.remote = none → x.transport.closedState ≠ .PENDING
  isOpened : x'.isOpened = x.isOpened ∨ x'.transport.closedState = .OPEN ∧ x'.isOpened = true

namespace Handled

variable {m : AdbMessage} {x : Stream} {call : Call} {t : StreamTransport}

/-- How a transport is left by `_handle_message`. -/
structure TransportHandled (m : AdbMessage) (t t' : StreamTransport) : Prop where
  messageQueue : t'.messageQueue = t.messageQueue
  contents : t'.readBuffer.contents = t.readBuffer.contents ++ (Stream.payload m).flatten
  localId : t'.localId = t.localId
  remote : t'.remote = t.remote ∧
    (t'.closedState = t.closedState ∨ m.command = .CLSE ∧ t'.closedState = .CLOSED) ∨
    m.command = .OKAY ∧ t'.remote = some m.arg0
  answered : m.command = .OKAY → t'.remote = none → t.closedState ≠ .PENDING

theorem transport {t' : StreamTransport} (handleWrte : Bool) (hid : m.command = .OKAY → m.arg0 ≠ 0)
    (hknown : m.command ∈ [Command.OKAY, .CLSE, .WRTE]) (hwrte : m.command = .WRTE → handleWrte = true)
    (h : (t.handleMessage m handleWrte).2 = t') : TransportHandled m t t' := by
  subst h
  unfold StreamTransport.handleMessage
  split
  · rename_i hokay
    have hpayload : Stream.payload m = [] := payload_of_ne (by rw [hokay]; exact nofun)
    have hid := hid hokay
    split
    · rename_i e hset
      refine ⟨rfl, by simp [hpayload], rfl, .inl ⟨rfl, .inl rfl⟩, fun _ hnone ↦ ?_⟩
      rcases StreamTransport.setOrCheckRemoteId_error hset with ⟨-, hstate⟩ | ⟨id, hsome, -⟩
      · exact hstate
      · exact absurd (hsome.symm.trans hnone) nofun
    · rename_i t₁ hset
      have hmain : TransportHandled m t t₁ := by
        rcases StreamTransport.setOrCheckRemoteId_ok hset with ⟨hsome, rfl⟩ | ⟨-, -, rfl⟩
        · exact ⟨rfl, by simp [hpayload], rfl, .inl ⟨rfl, .inl rfl⟩,
            fun _ hnone ↦ absurd (hsome.symm.trans hnone) nofun⟩
        · have hremote := StreamTransport.remote_of_ne_zero (t := t) hid .OPEN
          exact ⟨rfl, by simp [hpayload], rfl, .inr ⟨hokay, hremote⟩,
            fun _ hnone ↦ absurd (hremote.symm.trans hnone) nofun⟩
      split
      · exact ⟨hmain.messageQueue, hmain.contents, hmain.localId, hmain.remote, hmain.answered⟩
      · exact hmain
  · rename_i hclse
    have hpayload : Stream.payload m = [] := payload_of_ne (by rw [hclse]; exact nofun)
    exact ⟨rfl, by simp [hpayload], rfl, .inl ⟨rfl, .inr ⟨hclse, rfl⟩⟩, fun hokay ↦ by simp [hclse] at hokay⟩
  · rename_i hokay hclse
    simp only [List.mem_cons, List.not_mem_nil, or_false] at hknown
    have hcommand := (hknown.resolve_left hokay).resolve_left hclse
    rw [if_pos (hwrte hcommand)]
    refine ⟨rfl, ?_, rfl, .inl ⟨rfl, .inl rfl⟩, fun ho ↦ absurd ho hokay⟩
    simp [payload_wrte hcommand]

theorem of_transport {t : StreamTransport} (h : TransportHandled m x.transport t) :
    Handled m x ({ x with transport := t }.afterMessage call) ∧
      ∀ e, Handled m x ({ x with transport := t }.raise call e) := by
  obtain ⟨hqueue, hcontents, hid, hremote, hanswered⟩ := h
  constructor
  · unfold Stream.afterMessage
    split
    · split
      · exact ⟨rfl, id, id, hqueue, rfl, rfl, rfl, rfl, hcontents, rfl, rfl, rfl, hid, hremote, hanswered,
          .inr ⟨‹_›, rfl⟩⟩
      · exact ⟨rfl, id, id, hqueue, rfl, rfl, rfl, rfl, hcontents, rfl, rfl, rfl, hid, hremote, hanswered,
          .inl rfl⟩
    · exact ⟨rfl, ‹_›, id, hqueue, rfl, rfl, rfl, rfl, hcontents, rfl, rfl, rfl, hid, hremote, hanswered,
        .inl rfl⟩
  · intro e
    have hpc : (({ x with transport := t } : Stream).raise call e).pc =
        if call = .ensureOpened then .dead else .idle := rfl
    refine ⟨?_, ?_, ?_, hqueue, rfl, rfl, rfl, rfl, hcontents, rfl, rfl, rfl, hid, hremote, hanswered, .inl rfl⟩
    · rw [hpc]
      split <;> rfl
    · rw [hpc]
      split <;> exact id
    · rw [hpc]
      split <;> exact id

end Handled

theorem handled_handleMessage {m : AdbMessage} {x : Stream} {call : Call}
    (hid : m.command = .OKAY → m.arg0 ≠ 0) (hknown : m.command ∈ [Command.OKAY, .CLSE, .WRTE])
    (hwrte : m.command = .WRTE → call ≠ .ensureOpened) : Handled m x (x.handleMessage call m) := by
  have ht := Handled.transport (t := x.transport) (call ≠ .ensureOpened) hid hknown
    (fun h ↦ by simpa using hwrte h) rfl
  unfold Stream.handleMessage
  split
  · rename_i t heq
    rw [heq] at ht
    exact (Handled.of_transport ht).1
  · rename_i e t heq
    rw [heq] at ht
    exact (Handled.of_transport ht).2 e

section Handle

variable {m : AdbMessage} {call : Call} {v : View} {x : Stream}

theorem View.held_of_got (hpc : v.stream.pc = .got call m) :
    v.held = m :: (v.stream.transport.messageQueue ++ v.putting) := by
  rw [View.held, hpc]
  rfl

theorem Handled.held (h : Handled m v.stream x) :
    ({ v with stream := x } : View).held = v.stream.transport.messageQueue ++ v.putting := by
  rw [View.held, h.toHandle, h.messageQueue]
  rfl

theorem Accounts.handle (ha : Accounts v) (hpc : v.stream.pc = .got call m) (h : Handled m v.stream x) :
    Accounts { v with stream := x } where
  wrtes := by
    rw [h.wrtes, h.received, h.lost]
    exact ha.wrtes
  bytes := by
    rw [h.held, h.received, ha.bytes, View.held_of_got hpc, h.returned, h.contents]
    simp
  acks := by
    have hack : x.ack = v.stream.ack := by rw [Stream.ack, h.localId, h.deviceId, Stream.ack]
    rw [h.sent, h.received, ha.acks, hack]

theorem Consistent.handle (hc : Consistent v) (hpc : v.stream.pc = .got call m)
    (h : Handled m v.stream x) : Consistent { v with stream := x } := by
  have hheld := View.held_of_got hpc
  have hmem : m ∈ v.line := by simp [View.line, hheld]
  have hline : ∀ m' ∈ ({ v with stream := x } : View).line, m' ∈ v.line := by
    intro m' hm'
    rw [View.line, h.held] at hm'
    rw [View.line, hheld]
    exact List.mem_cons_of_mem m hm'
  have hremote : x.transport.remote = none → v.remote = none := by
    intro hnone
    rcases h.remote with ⟨heq, -⟩ | ⟨-, hsome⟩
    · exact heq.symm.trans hnone
    · exact absurd (hsome.symm.trans hnone) nofun
  have hfronted : v.mapped → x.transport.remote = none → False := by
    intro hmapped hnone
    have hhead := (hc.front (.inr ⟨hmapped, hremote hnone⟩)).2 m (by rw [View.line, hheld]; rfl)
    have hclse : m.command ≠ .CLSE := fun hclse ↦ hc.closes m (by simp [hheld]) hclse hmapped
    have hokay : m.command = .OKAY := by
      have hknown := hc.known m hmem
      simp only [List.mem_cons, List.not_mem_nil, or_false] at hknown
      exact hknown.resolve_right fun hor ↦ hor.elim hclse hhead
    exact h.answered hokay hnone (hc.pending hmapped (hremote hnone))
  constructor
  case lost => exact fun hmapped ↦ h.lost.trans (hc.lost hmapped)
  case asked =>
      intro hs
      have hnil := (hc.asked (h.status ▸ hs)).1
      exact absurd hmem (hnil ▸ List.not_mem_nil)
  case opened => exact fun hs ↦ h.deviceId ▸ hc.opened (h.status ▸ hs)
  case known => exact fun m' hm' ↦ hc.known m' (hline m' hm')
  case stamped => exact fun m' hm' ↦ h.deviceId ▸ hc.stamped m' (hline m' hm')
  case remote =>
      intro id hid
      rw [h.deviceId]
      rcases h.remote with ⟨heq, -⟩ | ⟨hokay, hsome⟩
      · exact hc.remote id (heq.symm.trans hid)
      · rw [← (hc.stamped m hmem hokay).1]
        exact (Option.some.inj (hsome.symm.trans hid)).symm
  case isOpen =>
      intro ho hnone
      rcases h.remote with ⟨heq, hstate | ⟨-, hclosed⟩⟩ | ⟨-, hsome⟩
      · exact hc.isOpen (hstate ▸ ho) (hremote hnone)
      · exact absurd (hclosed.symm.trans ho) nofun
      · exact absurd (hsome.symm.trans hnone) nofun
  case isOpened =>
      intro ho hnone
      rcases h.isOpened with heq | ⟨hopen, -⟩
      · exact hc.isOpened (heq ▸ ho) (hremote hnone)
      · rcases h.remote with ⟨heq, hstate | ⟨-, hclosed⟩⟩ | ⟨-, hsome⟩
        · exact hc.isOpen (hstate ▸ hopen) (hremote hnone)
        · exact absurd (hclosed.symm.trans hopen) nofun
        · exact absurd (hsome.symm.trans hnone) nofun
  case pending => exact fun hmapped hnone ↦ (hfronted hmapped hnone).elim
  case opening => exact fun ho ↦ absurd ho h.opening
  case closes =>
      intro m' hm' hclse
      rw [h.held] at hm'
      exact hc.closes m' (by rw [hheld]; exact List.mem_cons_of_mem m hm') hclse
  case last => exact hc.last
  case closed => exact fun m' hm' hclse ↦ h.status.trans (hc.closed m' hm' hclse)
  case unmapped =>
      intro hnot ho
      rw [h.status]
      refine hc.unmapped hnot ?_
      rcases h.isOpened with heq | ⟨-, hopened⟩
      · exact heq ▸ ho
      · exact absurd (hopened.symm.trans ho) nofun
  case front =>
      rintro (ho | ⟨hmapped, hnone⟩)
      · exact absurd ho h.opening
      · exact (hfronted hmapped hnone).elim

end Handle

/-! ## The device sends a message -/

/-- The device sends a message: OPEN is answered, or a stream that it has not closed
is used. -/
structure Sent (m : AdbMessage) (x x' : Stream) : Prop where
  notClosed : x.status ≠ .closed
  known : m.command ∈ [Command.OKAY, .CLSE, .WRTE]
  okay : m.command = .OKAY → m.arg0 = x'.deviceId ∧ x'.deviceId ≠ 0
  wrte : m.command = .WRTE → x.status = .opened
  clse : m.command = .CLSE → x'.status = .closed
  answered : x'.status ≠ .asked
  opened : x'.status = .opened → x'.deviceId ≠ 0
  deviceId : x'.deviceId = x.deviceId ∨ x.status = .asked
  wrtes : x'.wrtes = x.wrtes ++ Stream.payload m
  same : { x' with status := x.status, deviceId := x.deviceId, wrtes := x.wrtes } = x

section Send

variable {m : AdbMessage} {v : View} {x : Stream}

theorem Sent.fields (h : Sent m v.stream x) : x.transport = v.stream.transport ∧ x.pc = v.stream.pc ∧
    x.isOpened = v.stream.isOpened ∧ x.sent = v.stream.sent ∧ x.received = v.stream.received ∧
    x.lost = v.stream.lost ∧ x.returned = v.stream.returned := by
  rw [← h.same]
  exact ⟨rfl, rfl, rfl, rfl, rfl, rfl, rfl⟩

theorem Sent.held (h : Sent m v.stream x) :
    ({ v with stream := x, pipe := v.pipe ++ [m] } : View).held = v.held := by
  obtain ⟨ht, hpc, -⟩ := h.fields
  rw [View.held, ht, hpc]
  rfl

theorem Sent.line (h : Sent m v.stream x) :
    ({ v with stream := x, pipe := v.pipe ++ [m] } : View).line = v.line ++ [m] := by
  rw [View.line, h.held, View.line, List.append_assoc]

theorem Accounts.send (ha : Accounts v) (hc : Consistent v) (h : Sent m v.stream x) :
    Accounts { v with stream := x, pipe := v.pipe ++ [m] } := by
  obtain ⟨ht, -, -, hsent, hreceived, hlost, hreturned⟩ := h.fields
  constructor
  case wrtes =>
      rw [h.wrtes, ha.wrtes, hreceived, hlost]
      simp
  case bytes =>
      rw [h.held, hreceived, hreturned, ht]
      exact ha.bytes
  case acks =>
      rw [hsent, hreceived, ha.acks]
      rcases h.deviceId with heq | hasked
      · refine List.map_congr_left fun _ _ ↦ ?_
        rw [Stream.ack, Stream.ack, heq, Stream.localId, Stream.localId, ht]
      · rw [(hc.asked hasked).2.2]
        rfl

theorem Consistent.send (hc : Consistent v) (h : Sent m v.stream x) :
    Consistent { v with stream := x, pipe := v.pipe ++ [m] } := by
  obtain ⟨ht, hpc, hopened, -, -, hlost, -⟩ := h.fields
  have hline := h.line
  have hnone : ∀ m' ∈ v.pipe, m'.command ≠ .CLSE := fun m' hm' hclse ↦ h.notClosed (hc.closed m' hm' hclse)
  have hremote : ({ v with stream := x, pipe := v.pipe ++ [m] } : View).remote = v.remote := by
    rw [View.remote, ht, View.remote]
  constructor
  case lost => exact fun hmapped ↦ hlost.trans (hc.lost hmapped)
  case asked => exact fun hs ↦ absurd hs h.answered
  case opened => exact h.opened
  case known =>
      intro m' hm'
      rw [hline] at hm'
      rcases List.mem_append.mp hm' with hm' | hm'
      · exact hc.known m' hm'
      · exact List.mem_singleton.mp hm' ▸ h.known
  case stamped =>
      intro m' hm' hokay
      rw [hline] at hm'
      rcases List.mem_append.mp hm' with hm' | hm'
      · rcases h.deviceId with heq | hasked
        · exact heq ▸ hc.stamped m' hm' hokay
        · rw [(hc.asked hasked).1] at hm'
          cases hm'
      · obtain rfl := List.mem_singleton.mp hm'
        exact h.okay hokay
  case remote =>
      intro id hid
      rw [hremote] at hid
      rcases h.deviceId with heq | hasked
      · exact heq ▸ hc.remote id hid
      · exact absurd ((hc.asked hasked).2.1.symm.trans hid) nofun
  case isOpen => exact fun ho ↦ hremote ▸ hc.isOpen (ht ▸ ho)
  case isOpened => exact fun ho ↦ hremote ▸ hc.isOpened (hopened ▸ ho)
  case pending => exact fun hmapped hr ↦ ht ▸ hc.pending hmapped (hremote ▸ hr)
  case opening => exact fun ho ↦ hopened ▸ hc.opening (hpc ▸ ho)
  case closes =>
      intro m' hm'
      rw [h.held] at hm'
      exact hc.closes m' hm'
  case last =>
      refine List.pairwise_append.mpr ⟨hc.last, List.pairwise_singleton _ _, fun m' hm' _ _ ↦ hnone m' hm'⟩
  case closed =>
      intro m' hm' hclse
      rcases List.mem_append.mp hm' with hm' | hm'
      · exact absurd hclse (hnone m' hm')
      · obtain rfl := List.mem_singleton.mp hm'
        exact h.clse hclse
  case unmapped =>
      intro hnot ho
      exact absurd (hc.unmapped hnot (hopened ▸ ho)).1 h.notClosed
  case front =>
      intro ho
      obtain ⟨hempty, hhead⟩ := hc.front (ho.imp (fun ho ↦ hpc ▸ ho) fun ⟨hm, hr⟩ ↦ ⟨hm, hremote ▸ hr⟩)
      refine ⟨fun hnil ↦ absurd (hline.symm.trans hnil) (by simp), fun m' hm' ↦ ?_⟩
      rw [hline] at hm'
      cases hv : v.line with
      | nil =>
          rw [hv] at hm'
          obtain rfl := Option.some.inj hm'
          exact fun hwrte ↦ hempty hv (h.wrte hwrte)
      | cons first rest =>
          rw [hv] at hm'
          exact hhead m' (hv ▸ hm')

end Send

end OpenHtf.Adb
