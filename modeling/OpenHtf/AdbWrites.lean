import OpenHtf.AdbStreamTransport
import OpenHtf.Lib.Interleaving
import OpenHtf.Lib.Mutex

/-!
# Writes to one ADB stream by several threads

Threads `τ` that read from and write to one open `AdbStream`.  They share its
transport with the write lock, the lock of the thread that reads messages for all
of them, and the condition on which the others wait.  `read_for_stream` returns
the messages of the stream in the order in which the device has sent them.
-/

set_option autoImplicit false

namespace OpenHtf.Adb

/-! ## The transport -/

namespace StreamTransport

/-- The checks at the start of `write`. -/
def checkWrite (t : StreamTransport) : Except StreamError Unit :=
  match t.remote with
  | none => .error .cannotWrite
  | some _ =>
    if t.closedState ≠ .OPEN then .error .cannotWrite
    else if t.expectingOkay then .error .previousWrteFailed
    else .ok ()

/-- The checks of `_send_command`. -/
def checkSend (maxdata : ℕ) (data : List UInt8) (t : StreamTransport) : Except StreamError Unit :=
  if maxdata < data.length then .error (.messageTooLong data)
  else
    match t.remote with
    | none => .error (.sendBeforeOkay data)
    | some _ => .ok ()

def expectOkay (b : Bool) (t : StreamTransport) : StreamTransport := { t with expectingOkay := b }

/-- `_handle_message` up to where it clears `_expecting_okay`: it tells whether it
does that. -/
def beginMessage (message : AdbMessage) (t : StreamTransport) :
    Except StreamError Bool × StreamTransport :=
  match message.command with
  | .OKAY =>
    match t.setOrCheckRemoteId message.arg0 with
    | .error e => (.error e, t)
    | .ok t => (if t.expectingOkay then .ok true else .error (.unexpectedOkay message), t)
  | .CLSE => (.ok false, { t with closedState := .CLOSED })
  | _ => (.ok false, { t with readBuffer := t.readBuffer.append message.data })

/-- Taken together, the two parts are `_handle_message`. -/
theorem handleMessage_eq_beginMessage (message : AdbMessage) (t : StreamTransport) :
    t.handleMessage message true =
      match t.beginMessage message with
      | (.error e, t) => (.error e, t)
      | (.ok true, t) => (.ok (), t.expectOkay false)
      | (.ok false, t) => (.ok (), t) := by
  cases hcommand : message.command with
  | OKAY =>
      rw [handleMessage, beginMessage, hcommand]
      cases t.setOrCheckRemoteId message.arg0 with
      | error e => rfl
      | ok t =>
          dsimp only
          split <;> rfl
  | _ =>
      simp only [handleMessage, beginMessage, hcommand, if_true]

end StreamTransport

namespace Writes

/-! ## The state -/

/-- A call of `AdbStreamTransport.read`, or of `write` with what `AdbStream.write`
has yet to write after it. -/
inductive Call where
  | read (length : ℕ)
  | write (data rest : List UInt8)
  deriving DecidableEq

/-- Where the holder of `_reader_lock` is: before it looks at its predicate, in
`read_for_stream`, in `_handle_message` and there before `_expecting_okay` is
cleared, before the others are notified, and before the lock is released. -/
inductive ReaderPc where
  | entered
  | receiving
  | handling (message : AdbMessage)
  | clearing
  | notifying
  | releasing
  deriving DecidableEq

/-- Where a thread is: in the loop of `AdbStream.write`; in `write` behind the
checks, inside the write lock and with `_expecting_okay` set; at the head of the
loop of `_read_messages_until_true`, before it tries to get the reader lock,
waiting for the condition, notified, or holding the reader lock; behind the loop;
or leaving the call by an exception. -/
inductive Pc where
  | idle
  | writing (data : List UInt8)
  | checked (data rest : List UInt8)
  | locked (data rest : List UInt8)
  | expecting (data rest : List UInt8)
  | looping (call : Call)
  | acquiring (call : Call)
  | waiting (call : Call)
  | notified (call : Call)
  | inside (call : Call)
  | leaving (call : Call)
  | raising (call : Call) (e : StreamError)
  deriving DecidableEq

/-- `incoming` are the messages for the stream that nobody has read yet, and
`unanswered` counts the WRTEs that the device has not answered. -/
structure State (τ : Type) where
  transport : StreamTransport
  pc : τ → Pc := fun _ ↦ .idle
  writeLock : Option τ := none
  reader : Option (τ × ReaderPc) := none
  incoming : List AdbMessage := []
  unanswered : ℕ := 0
  returned : List (List UInt8) := []
  errors : List (Call × StreamError) := []

inductive Action (τ : Type) where
  | read (i : τ) (length : ℕ)
  | write (i : τ) (data : List UInt8)
  | run (i : τ)
  | timeout (i : τ)
  | deviceAcks
  | deviceWrites (data : List UInt8)

variable {τ : Type}

/-- The predicate of a call's `_read_messages_until_true`. -/
def Call.Done (t : StreamTransport) : Call → Prop
  | read length => t.readBuffer.Ready length
  | write _ _ => t.expectingOkay = false

instance (t : StreamTransport) : (call : Call) → Decidable (call.Done t)
  | .read length => inferInstanceAs (Decidable (t.readBuffer.Ready length))
  | .write _ _ => inferInstanceAs (Decidable (t.expectingOkay = false))

/-- `notify_all` for a thread. -/
def Pc.notify : Pc → Pc
  | waiting call => notified call
  | pc => pc

/-! ## The steps -/

section Steps

variable [DecidableEq τ]

namespace State

def setPc (i : τ) (pc : Pc) (s : State τ) : State τ := { s with pc := Function.update s.pc i pc }

def setTransport (t : StreamTransport) (s : State τ) : State τ := { s with transport := t }

def setWriteLock (lock : Option τ) (s : State τ) : State τ := { s with writeLock := lock }

def setReader (r : Option (τ × ReaderPc)) (s : State τ) : State τ := { s with reader := r }

def setIncoming (messages : List AdbMessage) (s : State τ) : State τ := { s with incoming := messages }

def addError (call : Call) (e : StreamError) (s : State τ) : State τ :=
  { s with errors := s.errors ++ [(call, e)] }

/-- The end of `read`. -/
def returnData (length : ℕ) (s : State τ) : State τ :=
  { s with
    transport := { s.transport with readBuffer := (s.transport.readBuffer.take length).2 }
    returned := s.returned ++ [(s.transport.readBuffer.take length).1] }

/-- The reader lock is released, and the thread goes on at `pc`. -/
def exitReader (i : τ) (pc : Pc) (s : State τ) : State τ := (s.setPc i pc).setReader none

/-- The write lock is released, if the call holds it, and the thread goes on at `pc`. -/
def exitCall (i : τ) (call : Call) (pc : Pc) (s : State τ) : State τ :=
  match call with
  | .read _ => s.setPc i pc
  | .write _ _ => (s.setPc i pc).setWriteLock none

/-- The next step of the thread that holds the reader lock. -/
def readerStep (i : τ) (call : Call) (s : State τ) : ReaderPc → Option (State τ)
  | .entered =>
    if call.Done s.transport then some (s.exitReader i (.leaving call))
    else some (s.setReader (some (i, .receiving)))
  | .receiving =>
    match s.incoming with
    | m :: rest => some ((s.setIncoming rest).setReader (some (i, .handling m)))
    | [] => none
  | .handling m =>
    match s.transport.beginMessage m with
    | (.error e, t) => some ((s.setTransport t).exitReader i (.raising call e))
    | (.ok clears, t) =>
      some ((s.setTransport t).setReader (some (i, if clears then .clearing else .notifying)))
  | .clearing =>
    some ((s.setTransport (s.transport.expectOkay false)).setReader (some (i, .notifying)))
  | .notifying =>
    some ({ s with pc := fun j ↦ (s.pc j).notify }.setReader (some (i, .releasing)))
  | .releasing => some (s.exitReader i (.looping call))

/-- The next step of a thread. -/
def run (maxdata : ℕ) (i : τ) (s : State τ) : Option (State τ) :=
  match s.pc i with
  | .idle => none
  | .writing [] => some (s.setPc i .idle)
  | .writing data =>
    match s.transport.checkWrite with
    | .error e => some ((s.addError (.write (data.take maxdata) (data.drop maxdata)) e).setPc i .idle)
    | .ok () => some (s.setPc i (.checked (data.take maxdata) (data.drop maxdata)))
  | .checked data rest =>
    match s.writeLock with
    | none => some ((s.setPc i (.locked data rest)).setWriteLock (some i))
    | some _ => none
  | .locked data rest =>
    some ((s.setTransport (s.transport.expectOkay true)).setPc i (.expecting data rest))
  | .expecting data rest =>
    match s.transport.checkSend maxdata data with
    | .error e => some (s.setPc i (.raising (.write data rest) e))
    | .ok () => some ({ s with unanswered := s.unanswered + 1 }.setPc i (.looping (.write data rest)))
  | .looping call =>
    if call.Done s.transport then some (s.setPc i (.leaving call))
    else some (s.setPc i (.acquiring call))
  | .acquiring call =>
    match s.reader with
    | none => some ((s.setPc i (.inside call)).setReader (some (i, .entered)))
    | some _ => some (s.setPc i (.waiting call))
  | .waiting _ => none
  | .notified call => some (s.setPc i (.looping call))
  | .inside call =>
    match s.reader with
    | some (j, pos) => if j = i then s.readerStep i call pos else none
    | none => none
  | .leaving (.read length) => some ((s.returnData length).setPc i .idle)
  | .leaving (.write data rest) => some (s.exitCall i (.write data rest) (.writing rest))
  | .raising call e => some ((s.addError call e).exitCall i call .idle)

/-- The timeout of a call expires: while WRTE is written, in the wait for the
condition or behind it, or in `read_for_stream`. -/
def timeout (i : τ) (s : State τ) : Option (State τ) :=
  match s.pc i with
  | .expecting data rest => some (s.setPc i (.raising (.write data rest) .timedOut))
  | .waiting call | .notified call => some (s.setPc i (.raising call .timedOut))
  | .inside call =>
    if s.reader = some (i, .receiving) then some (s.exitReader i (.raising call .timedOut)) else none
  | _ => none

/-- The device sends a message with its id for the stream. -/
def fromDevice (command : Command) (data : List UInt8) (s : State τ) : State τ :=
  s.setIncoming (s.incoming ++
    [⟨command, s.transport.remoteId.getD 0, s.transport.localId, data⟩])

end State

/-- `maxdata` is that of the connection.  The device answers each WRTE with one
OKAY, and may write. -/
def step (maxdata : ℕ) (s : State τ) : Action τ → Option (State τ)
  | .read i length => if s.pc i = .idle then some (s.setPc i (.looping (.read length))) else none
  | .write i data => if s.pc i = .idle then some (s.setPc i (.writing data)) else none
  | .run i => s.run maxdata i
  | .timeout i => s.timeout i
  | .deviceAcks =>
    match s.unanswered with
    | 0 => none
    | n + 1 => some ({ s with unanswered := n }.fromDevice .OKAY [])
  | .deviceWrites data => some (s.fromDevice .WRTE data)

/-- A stream that has just been opened. -/
def opened (localId remoteId : ℕ) : State τ where
  transport := { localId := localId, remoteId := some remoteId, closedState := .OPEN, expectingOkay := false }

end Steps

/-! ## Writes and their OKAYs -/

/-- The OKAYs that are on their way to `_expecting_okay` in the reader lock. -/
def ReaderPc.okays : ReaderPc → ℕ
  | handling m => if m.command = .OKAY then 1 else 0
  | clearing => 1
  | _ => 0

def isOkay (m : AdbMessage) : Bool := m.command = .OKAY

/-- The WRTEs whose OKAY has not been handled. -/
def unacknowledged (unanswered : ℕ) (incoming : List AdbMessage) (pos : Option ReaderPc) : ℕ :=
  unanswered + incoming.countP isOkay + (pos.map ReaderPc.okays).getD 0

def State.unacked (s : State τ) : ℕ :=
  unacknowledged s.unanswered s.incoming (s.reader.map Prod.snd)

def Call.IsWrite : Call → Prop
  | read _ => False
  | write _ _ => True

/-- The thread has sent its WRTE and not completed the call. -/
def Pc.Sent : Pc → Prop
  | looping call | acquiring call | waiting call | notified call | inside call | leaving call
  | raising call _ => call.IsWrite
  | _ => False

/-- At most one WRTE is unacknowledged, no write raises AdbProtocolError, and of
the threads that write at most one is past its WRTE. -/
structure OneWrite (s : State τ) : Prop where
  unacknowledged : s.unacked ≤ 1
  noProtocolError : ∀ data rest e, (Call.write data rest, e) ∈ s.errors → ¬e.IsProtocolError
  blocks : ∀ i j, (s.pc i).Sent → (s.pc j).Sent → i = j

/-- The next step of the thread is to check whether it may write, or to get the
write lock. -/
def Pc.Begins : Pc → Prop
  | writing data => data ≠ []
  | checked _ _ => True
  | _ => False

/-- A write passes its checks and gets the write lock only when no OKAY is expected. -/
def NoneExpected (s : State τ) : Action τ → Prop
  | .run i => (s.pc i).Begins → s.transport.expectingOkay = false
  | _ => True

/-! ## What is on the wire -/

/-- What the device sends on an open stream. -/
def FromDevice (remoteId : ℕ) (m : AdbMessage) : Prop :=
  m.command = .OKAY ∧ m.arg0 = remoteId ∨ m.command = .WRTE

/-- The transport is open, at most one OKAY is to come, and it is expected. -/
structure Wire (remoteId : ℕ) (t : StreamTransport) (unanswered : ℕ) (incoming : List AdbMessage)
    (pos : Option ReaderPc) : Prop where
  remote : t.remoteId = some remoteId
  opened : t.closedState = .OPEN
  frames : ∀ m ∈ incoming, FromDevice remoteId m
  handled : ∀ m, pos = some (.handling m) → FromDevice remoteId m
  few : unacknowledged unanswered incoming pos ≤ 1
  expected : 0 < unacknowledged unanswered incoming pos → t.expectingOkay = true

theorem unacknowledged_receive (unanswered : ℕ) (m : AdbMessage) (incoming : List AdbMessage) :
    unacknowledged unanswered incoming (some (.handling m)) =
      unacknowledged unanswered (m :: incoming) (some .receiving) := by
  simp only [unacknowledged, List.countP_cons, isOkay, Option.map_some, Option.getD_some,
    ReaderPc.okays, decide_eq_true_eq]
  omega

theorem unacknowledged_device {unanswered unanswered' : ℕ} {m : AdbMessage} (incoming : List AdbMessage)
    (pos : Option ReaderPc)
    (hanswered : unanswered' + (if m.command = .OKAY then 1 else 0) = unanswered) :
    unacknowledged unanswered' (incoming ++ [m]) pos = unacknowledged unanswered incoming pos := by
  simp only [unacknowledged, List.countP_append, List.countP_singleton, isOkay, decide_eq_true_eq]
  omega

namespace Wire

variable {remoteId unanswered : ℕ} {t : StreamTransport} {incoming : List AdbMessage}
  {pos pos' : Option ReaderPc} {m : AdbMessage}

/-- The transport changes outside what the wire depends on. -/
theorem setTransport (h : Wire remoteId t unanswered incoming pos) {t' : StreamTransport}
    (hid : t'.remoteId = t.remoteId) (hopen : t'.closedState = t.closedState)
    (hexpecting : t'.expectingOkay = t.expectingOkay) : Wire remoteId t' unanswered incoming pos :=
  ⟨hid.trans h.remote, hopen.trans h.opened, h.frames, h.handled, h.few,
    fun hpos ↦ hexpecting.trans (h.expected hpos)⟩

/-- The reader moves. -/
theorem move (h : Wire remoteId t unanswered incoming pos)
    (hokays : (pos'.map ReaderPc.okays).getD 0 = (pos.map ReaderPc.okays).getD 0)
    (hpos : ∀ m, pos' ≠ some (.handling m)) : Wire remoteId t unanswered incoming pos' where
  remote := h.remote
  opened := h.opened
  frames := h.frames
  handled m hm := absurd hm (hpos m)
  few := by
    rw [unacknowledged, hokays]
    exact h.few
  expected hpos := by
    rw [unacknowledged, hokays] at hpos
    exact h.expected hpos

theorem receive (h : Wire remoteId t unanswered (m :: incoming) (some .receiving)) :
    Wire remoteId t unanswered incoming (some (.handling m)) := by
  refine ⟨h.remote, h.opened, fun m' hm ↦ h.frames m' (by simp [hm]), ?_, ?_, ?_⟩
  · rintro m' ⟨⟩
    exact h.frames m (by simp)
  · rw [unacknowledged_receive]
    exact h.few
  · rw [unacknowledged_receive]
    exact h.expected

theorem remote_eq (h : Wire remoteId t unanswered incoming pos) (hid : remoteId ≠ 0) :
    t.remote = some remoteId := by
  rw [StreamTransport.remote, h.remote]
  split
  · rename_i heq
    exact absurd (Option.some.inj heq) hid
  · rfl

/-- A message is handled without an exception. -/
theorem beginMessage (h : Wire remoteId t unanswered incoming (some (.handling m))) (hid : remoteId ≠ 0) :
    ∃ clears t', t.beginMessage m = (.ok clears, t') ∧ t'.expectingOkay = t.expectingOkay ∧
      (if clears then ReaderPc.clearing else .notifying).okays = (ReaderPc.handling m).okays ∧
      Wire remoteId t' unanswered incoming (some (if clears then .clearing else .notifying)) := by
  rcases h.handled m rfl with ⟨hcommand, harg⟩ | hcommand
  · have hokays : (ReaderPc.handling m).okays = 1 := by simp [ReaderPc.okays, hcommand]
    have hexpecting : t.expectingOkay = true := by
      refine h.expected ?_
      simp only [unacknowledged, Option.map_some, Option.getD_some, hokays]
      omega
    refine ⟨true, t, ?_, rfl, hokays.symm, h.move hokays.symm nofun⟩
    simp [StreamTransport.beginMessage, StreamTransport.setOrCheckRemoteId, hcommand, h.remote_eq hid,
      harg, hexpecting]
  · have hokays : (ReaderPc.handling m).okays = 0 := by simp [ReaderPc.okays, hcommand]
    have hmoved : Wire remoteId t unanswered incoming (some .notifying) := h.move hokays.symm nofun
    refine ⟨false, { t with readBuffer := t.readBuffer.append m.data }, ?_, rfl, hokays.symm,
      hmoved.setTransport rfl rfl rfl⟩
    simp only [StreamTransport.beginMessage, hcommand]

theorem clear (h : Wire remoteId t unanswered incoming (some .clearing)) :
    Wire remoteId (t.expectOkay false) unanswered incoming (some .notifying) := by
  have hnone : unacknowledged unanswered incoming (some .notifying) = 0 := by
    have hfew := h.few
    simp only [unacknowledged, Option.map_some, Option.getD_some, ReaderPc.okays] at hfew ⊢
    omega
  exact ⟨h.remote, h.opened, h.frames, nofun, by omega, by omega⟩

theorem expect (h : Wire remoteId t unanswered incoming pos) :
    Wire remoteId (t.expectOkay true) unanswered incoming pos :=
  ⟨h.remote, h.opened, h.frames, h.handled, h.few, fun _ ↦ rfl⟩

/-- WRTE is sent when no OKAY is to come. -/
theorem send (h : Wire remoteId t unanswered incoming pos)
    (hnone : unacknowledged unanswered incoming pos = 0) (hexpecting : t.expectingOkay = true) :
    Wire remoteId t (unanswered + 1) incoming pos := by
  have hone : unacknowledged (unanswered + 1) incoming pos = 1 := by
    simp only [unacknowledged] at hnone ⊢
    omega
  exact ⟨h.remote, h.opened, h.frames, h.handled, by omega, fun _ ↦ hexpecting⟩

/-- The device sends a message, which is an OKAY if it answers a WRTE. -/
theorem device (h : Wire remoteId t unanswered incoming pos) {unanswered' : ℕ}
    (hm : FromDevice remoteId m)
    (hanswered : unanswered' + (if m.command = .OKAY then 1 else 0) = unanswered) :
    Wire remoteId t unanswered' (incoming ++ [m]) pos := by
  have hsame := unacknowledged_device incoming pos hanswered
  refine ⟨h.remote, h.opened, ?_, h.handled, hsame ▸ h.few, hsame ▸ h.expected⟩
  intro m' hm'
  rcases List.mem_append.mp hm' with hm' | hm'
  · exact h.frames m' hm'
  · rwa [List.mem_singleton.mp hm']

end Wire

/-! ## The invariant -/

/-- The thread holds the write lock. -/
def Pc.LocksWrite (pc : Pc) : Prop :=
  match pc with
  | .locked _ _ | .expecting _ _ => True
  | pc => pc.Sent

def Pc.Reads : Pc → Prop
  | inside _ => True
  | _ => False

/-- What holds of the thread's own data when `n` WRTEs are unacknowledged. -/
def Pc.Ok (maxdata n : ℕ) (expectingOkay : Bool) : Pc → Prop
  | checked data _ => data.length ≤ maxdata
  | locked data _ => data.length ≤ maxdata ∧ n = 0
  | expecting data _ => data.length ≤ maxdata ∧ n = 0 ∧ expectingOkay = true
  | raising _ e => ¬e.IsProtocolError
  | _ => True

structure Inv (maxdata remoteId : ℕ) (s : State τ) : Prop where
  wire : Wire remoteId s.transport s.unanswered s.incoming (s.reader.map Prod.snd)
  writer : Guards s.writeLock Pc.LocksWrite s.pc
  reader : Guards (s.reader.map Prod.fst) Pc.Reads s.pc
  threads : ∀ i, (s.pc i).Ok maxdata s.unacked s.transport.expectingOkay
  errors : ∀ e ∈ s.errors, ¬e.2.IsProtocolError

theorem Pc.locksWrite_of_sent {pc : Pc} (h : pc.Sent) : pc.LocksWrite := by
  cases pc with
  | locked data rest => trivial
  | expecting data rest => trivial
  | _ => exact h

theorem Pc.locksWrite_notify (pc : Pc) : pc.notify.LocksWrite ↔ pc.LocksWrite := by
  cases pc <;> rfl

theorem Pc.reads_notify (pc : Pc) : pc.notify.Reads ↔ pc.Reads := by
  cases pc <;> rfl

namespace Pc.Ok

variable {maxdata n n' : ℕ} {b b' : Bool} {pc : Pc}

theorem of_not_locksWrite (h : pc.Ok maxdata n b) (hpc : ¬pc.LocksWrite) : pc.Ok maxdata n' b' := by
  cases pc with
  | locked data rest => exact absurd trivial hpc
  | expecting data rest => exact absurd trivial hpc
  | checked data rest => exact h
  | raising call e => exact h
  | _ => trivial

/-- A thread that is about to send has no WRTE to wait for. -/
theorem of_pos (h : pc.Ok maxdata n b) (hn : 0 < n) : pc.Ok maxdata n' b' := by
  cases pc with
  | locked data rest => exact absurd h.2 hn.ne'
  | expecting data rest => exact absurd h.2.1 hn.ne'
  | checked data rest => exact h
  | raising call e => exact h
  | _ => trivial

theorem notify (h : pc.Ok maxdata n b) : pc.notify.Ok maxdata n b := by
  cases pc with
  | waiting call => trivial
  | _ => exact h

end Pc.Ok

section Rules

variable [DecidableEq τ] {maxdata remoteId : ℕ} {s : State τ} {i : τ} {pc : Pc} {pos pos' : ReaderPc}

theorem ok_update {n : ℕ} {b : Bool} (h : ∀ j, j ≠ i → (s.pc j).Ok maxdata n b)
    (hpc : pc.Ok maxdata n b) (j : τ) : (Function.update s.pc i pc j).Ok maxdata n b := by
  by_cases hj : j = i
  · rw [hj, Function.update_self]
    exact hpc
  · rw [Function.update_of_ne hj]
    exact h j hj

namespace Inv

/-- A thread moves and the locks stay as they are. -/
theorem setPc (h : Inv maxdata remoteId s) (hwrite : pc.LocksWrite ↔ (s.pc i).LocksWrite)
    (hread : pc.Reads ↔ (s.pc i).Reads) (hpc : pc.Ok maxdata s.unacked s.transport.expectingOkay) :
    Inv maxdata remoteId (s.setPc i pc) where
  wire := h.wire
  writer := h.writer.move hwrite
  reader := h.reader.move hread
  threads := ok_update (fun j _ ↦ h.threads j) hpc
  errors := h.errors

omit [DecidableEq τ] in
theorem addError (h : Inv maxdata remoteId s) {call : Call} {e : StreamError} (he : ¬e.IsProtocolError) :
    Inv maxdata remoteId (s.addError call e) where
  wire := h.wire
  writer := h.writer
  reader := h.reader
  threads := h.threads
  errors x hx := by
    rcases List.mem_append.mp hx with hx | hx
    · exact h.errors x hx
    · rwa [List.mem_singleton.mp hx]

theorem exitCall (h : Inv maxdata remoteId s) {call : Call}
    (hwrite : (s.pc i).LocksWrite ↔ call.IsWrite) (hread : ¬(s.pc i).Reads)
    (hnolock : ¬pc.LocksWrite) (hnoread : ¬pc.Reads)
    (hpc : pc.Ok maxdata s.unacked s.transport.expectingOkay) :
    Inv maxdata remoteId (s.exitCall i call pc) := by
  cases call with
  | read length =>
      exact h.setPc (iff_of_false hnolock hwrite.mp) (iff_of_false hnoread hread) hpc
  | write data rest =>
      have hlock : s.writeLock = some i := h.writer.lock_eq (hwrite.mpr trivial)
      refine ⟨h.wire, ?_, h.reader.move (iff_of_false hnoread hread),
        ok_update (fun j _ ↦ h.threads j) hpc, h.errors⟩
      exact (hlock ▸ h.writer).leave hnolock

omit [DecidableEq τ] in
/-- The holder of the reader lock moves on. -/
theorem advance (h : Inv maxdata remoteId s) (hreader : s.reader = some (i, pos)) {t : StreamTransport}
    {incoming : List AdbMessage} (hwire : Wire remoteId t s.unanswered incoming (some pos'))
    (hok : ∀ j, (s.pc j).Ok maxdata (unacknowledged s.unanswered incoming (some pos')) t.expectingOkay) :
    Inv maxdata remoteId (((s.setTransport t).setIncoming incoming).setReader (some (i, pos'))) where
  wire := hwire
  writer := h.writer
  reader := by
    have hold := h.reader
    rw [hreader] at hold
    exact hold
  threads := hok
  errors := h.errors

theorem exitReader (h : Inv maxdata remoteId s) (hreader : s.reader = some (i, pos)) (hokays : pos.okays = 0)
    (hwrite : pc.LocksWrite ↔ (s.pc i).LocksWrite) (hnoread : ¬pc.Reads)
    (hpc : pc.Ok maxdata s.unacked s.transport.expectingOkay) :
    Inv maxdata remoteId (s.exitReader i pc) := by
  have hsame : (s.exitReader i pc).unacked = s.unacked := by
    simp [State.unacked, State.exitReader, State.setReader, State.setPc, unacknowledged, hreader, hokays]
  have hold := h.reader
  rw [hreader] at hold
  refine ⟨h.wire.move ?_ nofun, h.writer.move hwrite, hold.leave hnoread, ?_, h.errors⟩
  · simp [hreader, hokays, State.exitReader, State.setReader]
  · rw [hsame]
    exact ok_update (fun j _ ↦ h.threads j) hpc

/-- A thread gets the write lock. -/
theorem lock (h : Inv maxdata remoteId s) {data rest : List UInt8} (hpc : s.pc i = .checked data rest)
    (hfree : s.writeLock = none) (hnone : s.transport.expectingOkay = false) :
    Inv maxdata remoteId ((s.setPc i (.locked data rest)).setWriteLock (some i)) := by
  have hok := h.threads i
  rw [hpc] at hok
  have hnothing : s.unacked = 0 := by
    by_contra hpos
    have hexpecting := h.wire.expected (Nat.pos_of_ne_zero hpos)
    simp [hnone] at hexpecting
  refine ⟨h.wire, (hfree ▸ h.writer).enter trivial, h.reader.move ?_,
    ok_update (fun j _ ↦ h.threads j) ⟨hok, hnothing⟩, h.errors⟩
  rw [hpc]
  exact Iff.rfl

/-- The holder of the write lock is about to send. -/
theorem expect (h : Inv maxdata remoteId s) {data rest : List UInt8} (hpc : s.pc i = .locked data rest) :
    Inv maxdata remoteId
      ((s.setTransport (s.transport.expectOkay true)).setPc i (.expecting data rest)) := by
  have hok := h.threads i
  have hlock : (s.pc i).LocksWrite := by rw [hpc]; trivial
  have hread : ¬(s.pc i).Reads := by rw [hpc]; exact id
  rw [hpc] at hok
  refine ⟨h.wire.expect, h.writer.move (iff_of_true trivial hlock),
    h.reader.move (iff_of_false id hread), ok_update (fun j hj ↦ ?_) ⟨hok.1, hok.2, rfl⟩, h.errors⟩
  exact (h.threads j).of_not_locksWrite fun hj' ↦ hj (h.writer.exclusive hj' hlock)

/-- The holder of the write lock sends WRTE. -/
theorem send (h : Inv maxdata remoteId s) {data rest : List UInt8} (hpc : s.pc i = .expecting data rest) :
    Inv maxdata remoteId
      ({ s with unanswered := s.unanswered + 1 }.setPc i (.looping (.write data rest))) := by
  have hok := h.threads i
  have hlock : (s.pc i).LocksWrite := by rw [hpc]; trivial
  have hread : ¬(s.pc i).Reads := by rw [hpc]; exact id
  rw [hpc] at hok
  refine ⟨h.wire.send hok.2.1 hok.2.2, h.writer.move (iff_of_true trivial hlock),
    h.reader.move (iff_of_false id hread), ok_update (fun j hj ↦ ?_) trivial, h.errors⟩
  exact (h.threads j).of_not_locksWrite fun hj' ↦ hj (h.writer.exclusive hj' hlock)

omit [DecidableEq τ] in
/-- The waiting threads are notified. -/
theorem notify (h : Inv maxdata remoteId s) (hreader : s.reader = some (i, .notifying)) :
    Inv maxdata remoteId
      ({ s with pc := fun j ↦ (s.pc j).notify }.setReader (some (i, .releasing))) := by
  have hwire := h.wire
  have hthreads := h.threads
  have hold := h.reader
  rw [State.unacked] at hthreads
  simp only [hreader, Option.map_some] at hwire hthreads hold
  exact ⟨hwire.move rfl nofun, h.writer.map fun j ↦ Pc.locksWrite_notify _,
    hold.map fun j ↦ Pc.reads_notify _, fun j ↦ (hthreads j).notify, h.errors⟩

/-- A thread gets the reader lock. -/
theorem enterReader (h : Inv maxdata remoteId s) {call : Call} (hpc : s.pc i = .acquiring call)
    (hfree : s.reader = none) :
    Inv maxdata remoteId ((s.setPc i (.inside call)).setReader (some (i, .entered))) := by
  have hwire := h.wire
  have hthreads := h.threads
  have hold := h.reader
  rw [State.unacked] at hthreads
  simp only [hfree, Option.map_none] at hwire hthreads hold
  refine ⟨hwire.move rfl nofun, h.writer.move ?_, hold.enter trivial,
    ok_update (fun j _ ↦ hthreads j) trivial, h.errors⟩
  rw [hpc]
  rfl

theorem readerStep (hid : remoteId ≠ 0) (h : Inv maxdata remoteId s) {call : Call}
    (hpc : s.pc i = .inside call) (hreader : s.reader = some (i, pos)) {s' : State τ}
    (hstep : s.readerStep i call pos = some s') : Inv maxdata remoteId s' := by
  have hwire := h.wire
  have hthreads := h.threads
  rw [State.unacked] at hthreads
  simp only [hreader, Option.map_some] at hwire hthreads
  have hcall : (s.pc i).LocksWrite ↔ call.IsWrite := by rw [hpc]; exact Iff.rfl
  cases pos with
  | entered =>
      simp only [State.readerStep] at hstep
      split at hstep
      · obtain rfl := Option.some.inj hstep
        exact h.exitReader hreader rfl hcall.symm id trivial
      · obtain rfl := Option.some.inj hstep
        exact h.advance hreader (hwire.move rfl nofun) hthreads
  | receiving =>
      simp only [State.readerStep] at hstep
      split at hstep
      · rename_i m rest hincoming
        obtain rfl := Option.some.inj hstep
        rw [hincoming] at hwire hthreads
        refine h.advance hreader hwire.receive ?_
        rwa [unacknowledged_receive]
      · cases hstep
  | handling m =>
      obtain ⟨clears, t, hbegin, hexpecting, hokays, hwire'⟩ := hwire.beginMessage hid
      simp only [State.readerStep, hbegin] at hstep
      obtain rfl := Option.some.inj hstep
      refine h.advance hreader hwire' ?_
      rw [hexpecting, unacknowledged, Option.map_some, hokays]
      exact hthreads
  | clearing =>
      obtain rfl := Option.some.inj hstep
      refine h.advance hreader hwire.clear fun j ↦ (hthreads j).of_pos ?_
      simp [unacknowledged, ReaderPc.okays]
  | notifying =>
      obtain rfl := Option.some.inj hstep
      exact h.notify hreader
  | releasing =>
      obtain rfl := Option.some.inj hstep
      exact h.exitReader hreader rfl hcall.symm id trivial

omit [DecidableEq τ] in
theorem returnData (h : Inv maxdata remoteId s) (length : ℕ) :
    Inv maxdata remoteId (s.returnData length) :=
  ⟨h.wire.setTransport rfl rfl rfl, h.writer, h.reader, h.threads, h.errors⟩

end Inv

end Rules

section Steps

variable [DecidableEq τ] {maxdata remoteId : ℕ} {s s' : State τ} {i : τ}

theorem inv_run (hid : remoteId ≠ 0) (h : Inv maxdata remoteId s) (hcond : NoneExpected s (.run i))
    (hstep : s.run maxdata i = some s') : Inv maxdata remoteId s' := by
  have hok := h.threads i
  unfold State.run at hstep
  split at hstep
  case h_1 => cases hstep
  case h_2 hpc =>
    obtain rfl := Option.some.inj hstep
    exact h.setPc (by rw [hpc]; rfl) (by rw [hpc]; rfl) trivial
  case h_3 data hdata hpc =>
    simp only [NoneExpected, hpc] at hcond
    have hnone : s.transport.expectingOkay = false := hcond hdata
    have hcheck : s.transport.checkWrite = .ok () := by
      simp [StreamTransport.checkWrite, h.wire.remote_eq hid, h.wire.opened, hnone]
    simp only [hcheck] at hstep
    obtain rfl := Option.some.inj hstep
    exact h.setPc (by rw [hpc]; rfl) (by rw [hpc]; rfl) (List.length_take_le _ _)
  case h_4 data rest hpc =>
    simp only [NoneExpected, hpc] at hcond
    split at hstep
    · obtain rfl := Option.some.inj hstep
      exact h.lock hpc ‹_› (hcond trivial)
    · cases hstep
  case h_5 data rest hpc =>
    obtain rfl := Option.some.inj hstep
    exact h.expect hpc
  case h_6 data rest hpc =>
    rw [hpc] at hok
    have hcheck : s.transport.checkSend maxdata data = .ok () := by
      simp [StreamTransport.checkSend, h.wire.remote_eq hid, hok.1]
    simp only [hcheck] at hstep
    obtain rfl := Option.some.inj hstep
    exact h.send hpc
  case h_7 call hpc =>
    split at hstep
    · obtain rfl := Option.some.inj hstep
      exact h.setPc (by rw [hpc]; rfl) (by rw [hpc]; rfl) trivial
    · obtain rfl := Option.some.inj hstep
      exact h.setPc (by rw [hpc]; rfl) (by rw [hpc]; rfl) trivial
  case h_8 call hpc =>
    split at hstep
    · obtain rfl := Option.some.inj hstep
      exact h.enterReader hpc ‹_›
    · obtain rfl := Option.some.inj hstep
      exact h.setPc (by rw [hpc]; rfl) (by rw [hpc]; rfl) trivial
  case h_9 => cases hstep
  case h_10 call hpc =>
    obtain rfl := Option.some.inj hstep
    exact h.setPc (by rw [hpc]; rfl) (by rw [hpc]; rfl) trivial
  case h_11 call hpc =>
    split at hstep
    · rename_i j pos hreader
      split at hstep
      · rename_i hj
        subst hj
        exact h.readerStep hid hpc hreader hstep
      · cases hstep
    · cases hstep
  case h_12 length hpc =>
    obtain rfl := Option.some.inj hstep
    exact (h.returnData length).setPc (by rw [State.returnData, hpc]; rfl) (by rw [State.returnData, hpc]; rfl) trivial
  case h_13 data rest hpc =>
    obtain rfl := Option.some.inj hstep
    exact h.exitCall (by rw [hpc]; rfl) (by rw [hpc]; exact id) id id trivial
  case h_14 call e hpc =>
    obtain rfl := Option.some.inj hstep
    rw [hpc] at hok
    refine (h.addError hok).exitCall ?_ ?_ id id trivial
    · rw [State.addError, hpc]
      rfl
    · rw [State.addError, hpc]
      exact id

theorem inv_timeout (h : Inv maxdata remoteId s) (hstep : s.timeout i = some s') :
    Inv maxdata remoteId s' := by
  unfold State.timeout at hstep
  split at hstep
  case h_4 call hpc =>
    split at hstep
    · obtain rfl := Option.some.inj hstep
      exact h.exitReader ‹_› rfl (by rw [hpc]; rfl) id id
    · cases hstep
  case h_5 => cases hstep
  all_goals
    rename_i hpc
    obtain rfl := Option.some.inj hstep
    exact h.setPc (by rw [hpc]; rfl) (by rw [hpc]; rfl) id

end Steps

/-! ## The result -/

section Result

variable {maxdata remoteId : ℕ} {s s' : State τ}

theorem Inv.fromDevice (h : Inv maxdata remoteId s) {unanswered : ℕ} {command : Command}
    {data : List UInt8} (hcommand : command = .OKAY ∨ command = .WRTE)
    (hanswered : unanswered + (if command = .OKAY then 1 else 0) = s.unanswered) :
    Inv maxdata remoteId ({ s with unanswered := unanswered }.fromDevice command data) := by
  have hm : FromDevice remoteId ⟨command, s.transport.remoteId.getD 0, s.transport.localId, data⟩ := by
    rcases hcommand with rfl | rfl
    · exact .inl ⟨rfl, by simp [h.wire.remote]⟩
    · exact .inr rfl
  refine ⟨h.wire.device hm hanswered, h.writer, h.reader, fun i ↦ ?_, h.errors⟩
  have hok := h.threads i
  rwa [State.unacked, ← unacknowledged_device (m := ⟨command, _, _, data⟩) _ _ hanswered] at hok

theorem inv_opened (localId : ℕ) : Inv maxdata remoteId (opened localId remoteId : State τ) where
  wire := ⟨rfl, rfl, nofun, nofun, Nat.zero_le 1, nofun⟩
  writer _ := iff_of_false id nofun
  reader _ := iff_of_false id nofun
  threads _ := trivial
  errors := nofun

theorem Inv.oneWrite (h : Inv maxdata remoteId s) : OneWrite s where
  unacknowledged := h.wire.few
  noProtocolError _ _ _ he := h.errors _ he
  blocks _ _ hi hj := h.writer.exclusive (Pc.locksWrite_of_sent hi) (Pc.locksWrite_of_sent hj)

variable [DecidableEq τ]

theorem inv_step (hid : remoteId ≠ 0) (h : Inv maxdata remoteId s) {a : Action τ}
    (hcond : NoneExpected s a) (hstep : step maxdata s a = some s') : Inv maxdata remoteId s' := by
  cases a with
  | read i length =>
      simp only [step] at hstep
      split at hstep
      · rename_i hpc
        obtain rfl := Option.some.inj hstep
        exact h.setPc (by rw [hpc]; rfl) (by rw [hpc]; rfl) trivial
      · cases hstep
  | write i data =>
      simp only [step] at hstep
      split at hstep
      · rename_i hpc
        obtain rfl := Option.some.inj hstep
        exact h.setPc (by rw [hpc]; rfl) (by rw [hpc]; rfl) trivial
      · cases hstep
  | run i => exact inv_run hid h hcond hstep
  | timeout i => exact inv_timeout h hstep
  | deviceAcks =>
      simp only [step] at hstep
      split at hstep
      · cases hstep
      · rename_i n hn
        obtain rfl := Option.some.inj hstep
        exact h.fromDevice (.inl rfl) hn.symm
  | deviceWrites data =>
      obtain rfl := Option.some.inj hstep
      exact h.fromDevice (.inr rfl) rfl

/-- In every run in which a write passes its checks and gets the write lock only
while no OKAY is expected, there is one write at a time. -/
theorem one_write_at_a_time (maxdata localId : ℕ) (hid : remoteId ≠ 0) (as : List (Action τ)) (s : State τ)
    (hmeets : RunMeets (step maxdata) NoneExpected as (opened localId remoteId))
    (hrun : runActions (step maxdata) as (opened localId remoteId) = some s) : OneWrite s :=
  (run_invariant (fun _ _ _ h hcond hstep ↦ inv_step hid h hcond hstep) (inv_opened localId) hmeets
    hrun).oneWrite

end Result

instance : DecidablePred Pc.Begins
  | .writing data => inferInstanceAs (Decidable (data ≠ []))
  | .checked _ _ => isTrue trivial
  | .idle | .locked _ _ | .expecting _ _ | .looping _ | .acquiring _ | .waiting _ | .notified _
  | .inside _ | .leaving _ | .raising _ _ => isFalse id

instance (s : State τ) : DecidablePred (NoneExpected s)
  | .run i => inferInstanceAs (Decidable ((s.pc i).Begins → s.transport.expectingOkay = false))
  | .read _ _ | .write _ _ | .timeout _ | .deviceAcks | .deviceWrites _ => isTrue trivial

/-- A thread writes, and when the device has answered another one writes. -/
def oneAfterAnother : List (Action Bool) :=
  [.write false [1]] ++ List.replicate 4 (.run false) ++ [.deviceAcks] ++
    List.replicate 11 (.run false) ++ [.write true [2]] ++ List.replicate 4 (.run true)

theorem one_write_at_a_time_oneAfterAnother :
    ∃ s, runActions (step 4096) oneAfterAnother (opened 1 7) = some s ∧ s.unacked = 1 ∧ OneWrite s := by
  obtain ⟨s, hs, hone⟩ : ∃ s, runActions (step 4096) oneAfterAnother (opened 1 7) = some s ∧
      s.unacked = 1 := ⟨_, rfl, rfl⟩
  exact ⟨s, hs, hone, one_write_at_a_time 4096 1 (by decide) oneAfterAnother s (by decide) hs⟩

/-- A thread writes while another one waits for the answer to its WRTE. -/
def oneDuringAnother : List (Action Bool) :=
  [.write false [1]] ++ List.replicate 4 (.run false) ++ [.write true [2], .run true]

theorem not_one_write_at_a_time_duringAnother :
    ∃ s, runActions (step 4096) oneDuringAnother (opened 1 7) = some s ∧ ¬OneWrite s := by
  refine ⟨_, rfl, fun h ↦ ?_⟩
  exact h.noProtocolError [2] [] .previousWrteFailed (by decide) trivial

end Writes

end OpenHtf.Adb
