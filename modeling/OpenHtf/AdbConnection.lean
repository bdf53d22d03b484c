import OpenHtf.AdbStreamTransport
import OpenHtf.Lib.Dict
import OpenHtf.Lib.Interleaving
import Mathlib.Logic.Function.Basic

/-!
# ADB streams over one connection

An `AdbConnection` with any number of streams, each of them used by one thread,
and the device at the other end.  A thread opens its stream and then reads or
writes; whoever holds `_reader_lock` reads messages for all of them.  Streams are
numbered in the order of their making, so that a number stands for one
`AdbStreamTransport` object; local ids may be given again.
-/

set_option autoImplicit false

namespace OpenHtf.Adb

/-! ## The state -/

/-- A message on its way from the device, and the stream that the device means. -/
structure Frame where
  addressee : ℕ
  message : AdbMessage
  deriving DecidableEq

/-- What a thread calls `_read_messages_until_true` or `read_for_stream` for. -/
inductive Call where
  | ensureOpened
  | read (length : ℕ)
  | write (data : List UInt8)
  deriving DecidableEq

/-- Where the thread of a stream is: in the loop of `_read_messages_until_true`;
in `read_for_stream` at the check of the map, at its first look into the queue,
at the lock, inside the lock, or behind the loop; or with a message to handle.
It is `dead` when there is no stream for it to use. -/
inductive Pc where
  | dead
  | idle
  | looping (call : Call)
  | polling (call : Call)
  | waiting (call : Call)
  | locking (call : Call)
  | inside (call : Call)
  | leaving (call : Call)
  | got (call : Call) (message : AdbMessage)
  deriving DecidableEq

/-- Where the holder of `_reader_lock` is: before and after its second look into
the queue, in `_handle_message_for_stream` with a message, with a message for
another stream before and after a CLSE is answered, and before the message is put
into the queue. -/
inductive ReaderPc where
  | locked
  | receiving
  | handling (f : Frame)
  | forwarding (f : Frame) (dest : ℕ)
  | enqueuing (f : Frame) (dest : ℕ)
  | putting (f : Frame) (dest : ℕ)
  deriving DecidableEq

/-- What the device has answered to OPEN so far. -/
inductive DeviceStatus where
  | asked
  | opened
  | closed
  deriving DecidableEq

/-- A stream: its transport, its thread, the device's end and what has happened,
that is, the payloads that the device wrote, those that were accepted and those
that were dropped, and what calls of `read` returned. -/
structure Stream where
  transport : StreamTransport
  pc : Pc := .dead
  isOpened : Bool := false
  status : DeviceStatus := .asked
  deviceId : ℕ := 0
  sent : List AdbMessage := []
  wrtes : List (List UInt8) := []
  received : List (List UInt8) := []
  lost : List (List UInt8) := []
  returned : List UInt8 := []
  errors : List StreamError := []

/-- `reader` is the stream whose thread holds `_reader_lock`, `closing` are the
calls of `close` that have marked their stream, and `removals` tells for each
entry that `close_stream_transport` removed which transport it was called with
and which one the entry held. -/
structure State where
  streams : ℕ → Stream := fun _ ↦ { transport := { localId := 0 } }
  made : ℕ := 0
  streamTransportMap : List (ℕ × ℕ) := []
  lastIdUsed : ℕ := 0
  reader : Option (ℕ × ReaderPc) := none
  closing : List ℕ := []
  incoming : List Frame := []
  removals : List (ℕ × ℕ) := []

/-! ## A stream on its own -/

namespace Stream

def localId (x : Stream) : ℕ := x.transport.localId

def setPc (pc : Pc) (x : Stream) : Stream := { x with pc := pc }

/-- The end of a call by an exception. -/
def raise (call : Call) (e : StreamError) (x : Stream) : Stream :=
  { x with
    pc := if call = .ensureOpened then .dead else .idle
    errors := x.errors ++ [e] }

/-- The payload of a WRTE, for the records of what becomes of it. -/
def payload (m : AdbMessage) : List (List UInt8) := if m.command = .WRTE then [m.data] else []

/-- A message for the stream is dropped. -/
def lose (m : AdbMessage) (x : Stream) : Stream := { x with lost := x.lost ++ payload m }

/-- A message is accepted for the stream, and what `out` says is sent. -/
def accept (m : AdbMessage) (out : List AdbMessage) (t : StreamTransport) (x : Stream) : Stream :=
  { x with transport := t, sent := x.sent ++ out, received := x.received ++ payload m }

/-- `message_queue.put`. -/
def enqueue (m : AdbMessage) (x : Stream) : Stream :=
  { x with transport := { x.transport with messageQueue := x.transport.messageQueue ++ [m] } }

/-- A message is taken from the queue. -/
def pop (call : Call) (m : AdbMessage) (rest : List AdbMessage) (x : Stream) : Stream :=
  { x with transport := { x.transport with messageQueue := rest }, pc := .got call m }

/-- CLSE is sent, unless the stream never got a remote id. -/
def sendClse (x : Stream) : Stream :=
  match x.transport.remote with
  | none => x
  | some id => { x with sent := x.sent ++ [⟨.CLSE, x.localId, id, []⟩] }

/-- The first statement of `close`. -/
def markClosed (x : Stream) : Stream :=
  { x with transport := { x.transport with closedState := .CLOSED } }

/-- A message was handled: `ensure_opened` returns, the others go on. -/
def afterMessage (call : Call) (x : Stream) : Stream :=
  if call = .ensureOpened then
    if x.transport.closedState = .OPEN then { x with pc := .idle, isOpened := true }
    else x.setPc .dead
  else x.setPc (.looping call)

def handleMessage (call : Call) (m : AdbMessage) (x : Stream) : Stream :=
  match x.transport.handleMessage m (call ≠ .ensureOpened) with
  | (.ok (), t) => { x with transport := t }.afterMessage call
  | (.error e, t) => { x with transport := t }.raise call e

/-- The end of `AdbStreamTransport.read`. -/
def returnData (length : ℕ) (x : Stream) : Stream :=
  { x with
    transport := { x.transport with readBuffer := (x.transport.readBuffer.take length).2 }
    pc := .idle
    returned := x.returned ++ (x.transport.readBuffer.take length).1 }

/-- The head of the loop in `_read_messages_until_true`, and what follows it. -/
def loop (call : Call) (x : Stream) : Stream :=
  match call with
  | .read length =>
    if x.transport.readBuffer.Ready length then x.returnData length else x.setPc (.polling call)
  | .write _ => if x.transport.expectingOkay then x.setPc (.polling call) else x.setPc .idle
  | .ensureOpened => x.setPc (.polling call)

/-- WRTE is sent. -/
def sendWrte (data : List UInt8) (id : ℕ) (x : Stream) : Stream :=
  { x with
    transport := { x.transport with expectingOkay := true }
    pc := .looping (.write data)
    sent := x.sent ++ [⟨.WRTE, x.localId, id, data⟩] }

/-- The start of a call of `read` or `write`. -/
def start (call : Call) (x : Stream) : Stream :=
  match call with
  | .write data =>
    match x.transport.remote with
    | none => x.raise call .cannotWrite
    | some id =>
      if x.transport.closedState ≠ .OPEN then x.raise call .cannotWrite
      else if x.transport.expectingOkay then x.raise call .previousWrteFailed
      else x.sendWrte data id
  | _ => x.setPc (.looping call)

/-- The next step, where it needs nothing but the stream. -/
def next (x : Stream) : Option Stream :=
  match x.pc with
  | .looping call => some (x.loop call)
  | .waiting call =>
    match x.transport.messageQueue with
    | [] => some (x.setPc (.locking call))
    | m :: rest => some (x.pop call m rest)
  | .leaving call =>
    match x.transport.messageQueue with
    | [] => some (x.raise call .streamClosed)
    | m :: rest => some (x.pop call m rest)
  | .got call m => some (x.handleMessage call m)
  | _ => none

/-- A new transport, whose thread has sent OPEN and waits for the answer. -/
def newStream (id : ℕ) (destination : List UInt8) : Stream where
  transport := { localId := id }
  pc := .polling .ensureOpened
  sent := [⟨.OPEN, id, 0, destination ++ [0]⟩]

end Stream

/-! ## The connection -/

/-- The ids that `_make_stream_transport` tries. -/
def candidates (limit last : ℕ) : List ℕ :=
  (List.range' last (limit - last) ++ List.range' 1 (last - 1)).take 64

namespace State

def lookup (id : ℕ) (s : State) : Option ℕ := s.streamTransportMap.lookup id

def modify (i : ℕ) (f : Stream → Stream) (s : State) : State :=
  { s with streams := Function.update s.streams i (f (s.streams i)) }

def setReader (r : Option (ℕ × ReaderPc)) (s : State) : State := { s with reader := r }

def setClosing (calls : List ℕ) (s : State) : State := { s with closing := calls }

def setIncoming (frames : List Frame) (s : State) : State := { s with incoming := frames }

/-- The entry under an id, which holds `j`, is removed on behalf of `i`. -/
def removeEntry (id i j : ℕ) (s : State) : State :=
  { s with
    streamTransportMap := dictErase id s.streamTransportMap
    removals := s.removals ++ [(i, j)] }

/-- `close_stream_transport`. -/
def closeStreamTransport (i : ℕ) (s : State) : State :=
  match s.lookup (s.streams i).localId with
  | none => s
  | some j => (s.removeEntry (s.streams i).localId i j).modify i Stream.sendClse

/-- A message for the stream of the thread that read it, which releases the lock. -/
def handleOwn (i : ℕ) (call : Call) (f : Frame) (s : State) : State :=
  let t := (s.streams i).transport
  match f.message.command with
  | .WRTE =>
    match t.remote with
    | none =>
      ((s.modify f.addressee (Stream.lose f.message)).modify i
        (Stream.raise call (.wrteBeforeOkay f.message))).setReader none
    | some id =>
      ((s.modify i (Stream.accept f.message [t.okay id] t)).modify i
        (Stream.setPc (.got call f.message))).setReader none
  | .CLSE => ((s.closeStreamTransport i).modify i (Stream.setPc (.got call f.message))).setReader none
  | _ => (s.modify i (Stream.setPc (.got call f.message))).setReader none

/-- The next step of the thread that holds the lock. -/
def readerStep (i : ℕ) (call : Call) (s : State) : ReaderPc → Option State
  | .locked =>
    match (s.streams i).transport.messageQueue with
    | m :: rest => some ((s.modify i (Stream.pop call m rest)).setReader none)
    | [] => some (s.setReader (some (i, .receiving)))
  | .receiving =>
    match s.incoming with
    | f :: rest => some ((s.setIncoming rest).setReader (some (i, .handling f)))
    | [] => none
  | .handling f =>
    if f.message.command ∉ [.OKAY, .CLSE, .WRTE] then
      some ((s.modify i (Stream.raise call (.unexpectedMessage f.message))).setReader none)
    else if f.message.arg1 = (s.streams i).localId then some (s.handleOwn i call f)
    else
      match s.lookup f.message.arg1 with
      | some dest => some (s.setReader (some (i, .forwarding f dest)))
      | none => some ((s.modify f.addressee (Stream.lose f.message)).setReader (some (i, .receiving)))
  | .forwarding f dest =>
    if f.message.command = .CLSE then
      some ((s.closeStreamTransport dest).setReader (some (i, .enqueuing f dest)))
    else some (s.setReader (some (i, .enqueuing f dest)))
  | .enqueuing f dest =>
    match (s.streams dest).transport.acknowledge f.message with
    | .error e =>
      some (((s.modify f.addressee (Stream.lose f.message)).modify i (Stream.raise call e)).setReader none)
    | .ok (out, t) =>
      some ((s.modify dest (Stream.accept f.message out t)).setReader (some (i, .putting f dest)))
  | .putting f dest =>
    some ((s.modify dest (Stream.enqueue f.message)).setReader (some (i, .receiving)))

/-- The next step of the thread of a stream. -/
def run (i : ℕ) (s : State) : Option State :=
  match (s.streams i).pc with
  | .polling call =>
    match s.lookup (s.streams i).localId with
    | some _ => some (s.modify i (Stream.setPc (.waiting call)))
    | none => some (s.modify i (Stream.setPc (.leaving call)))
  | .locking call =>
    match s.reader with
    | none => some ((s.modify i (Stream.setPc (.inside call))).setReader (some (i, .locked)))
    | some _ => some (s.modify i (Stream.setPc (.polling call)))
  | .inside call =>
    match s.reader with
    | some (j, pos) => if j = i then s.readerStep i call pos else none
    | none => none
  | _ => (s.streams i).next.map fun x ↦ s.modify i fun _ ↦ x

/-- The timeout of a call expires: in the loop of `read_for_stream`, or in the one
inside the lock. -/
def timeout (i : ℕ) (s : State) : Option State :=
  match (s.streams i).pc with
  | .polling call | .waiting call | .locking call | .leaving call =>
    some (s.modify i (Stream.raise call .timedOut))
  | .inside call =>
    if s.reader = some (i, .receiving) then
      some ((s.modify i (Stream.raise call .timedOut)).setReader none)
    else none
  | _ => none

/-- `_last_id_used` when the ids are tried. -/
def nextId (limit : ℕ) (s : State) : ℕ := s.lastIdUsed % limit + 1

/-- The id that is given to the next stream, if one is found. -/
def freeId (limit : ℕ) (s : State) : Option ℕ :=
  (candidates limit (s.nextId limit)).find? fun id ↦ id ∉ s.streamTransportMap.map Prod.fst

/-- `open_stream` up to `ensure_opened`: OPEN is sent unless there is no id. -/
def openStream (limit : ℕ) (destination : List UInt8) (s : State) : State :=
  match s.freeId limit with
  | none => { s with lastIdUsed := s.nextId limit }
  | some id =>
    { s with
      streams := Function.update s.streams s.made (Stream.newStream id destination)
      made := s.made + 1
      streamTransportMap := dictSet id s.made s.streamTransportMap
      lastIdUsed := id }

/-- The device sends a message for a stream, which carries its id for it. -/
def fromDevice (i : ℕ) (command : Command) (data : List UInt8) (s : State) : State :=
  s.setIncoming (s.incoming ++
    [⟨i, ⟨command, (s.streams i).deviceId, (s.streams i).localId, data⟩⟩])

end State

inductive Action where
  | openStream (destination : List UInt8)
  | call (i : ℕ) (call : Call)
  | run (i : ℕ)
  | timeout (i : ℕ)
  | close (i : ℕ)
  | finishClose (i : ℕ)
  | deviceOpens (i deviceId : ℕ)
  | deviceAcks (i : ℕ)
  | deviceWrites (i : ℕ) (data : List UInt8)
  | deviceCloses (i : ℕ)

/-- The device's end of a stream: it answers OPEN, writes, and closes. -/
def Stream.deviceOpens (deviceId : ℕ) (x : Stream) : Stream :=
  { x with status := .opened, deviceId := deviceId }

def Stream.deviceWrites (data : List UInt8) (x : Stream) : Stream := { x with wrtes := x.wrtes ++ [data] }

def Stream.deviceCloses (x : Stream) : Stream := { x with status := .closed }

/-- `limit` is STREAM_ID_LIMIT.  The device answers OPEN with an OKAY that carries
an id of its own, which is not zero, or with CLSE; it writes to open streams. -/
def step (limit : ℕ) (s : State) : Action → Option State
  | .openStream destination => some (s.openStream limit destination)
  | .call i call =>
    if (s.streams i).isOpened ∧ (s.streams i).pc = .idle ∧ call ≠ .ensureOpened then
      some (s.modify i (Stream.start call))
    else none
  | .run i => s.run i
  | .timeout i => s.timeout i
  | .close i =>
    if (s.streams i).isOpened then
      if (s.streams i).transport.closedState = .CLOSED then some s
      else some ((s.modify i Stream.markClosed).setClosing (i :: s.closing))
    else none
  | .finishClose i =>
    if i ∈ s.closing then some ((s.closeStreamTransport i).setClosing (s.closing.erase i)) else none
  | .deviceOpens i deviceId =>
    if i < s.made ∧ (s.streams i).status = .asked ∧ deviceId ≠ 0 then
      some ((s.modify i (Stream.deviceOpens deviceId)).fromDevice i .OKAY [])
    else none
  | .deviceAcks i =>
    if i < s.made ∧ (s.streams i).status = .opened then some (s.fromDevice i .OKAY []) else none
  | .deviceWrites i data =>
    if i < s.made ∧ (s.streams i).status = .opened then
      some ((s.modify i (Stream.deviceWrites data)).fromDevice i .WRTE data)
    else none
  | .deviceCloses i =>
    if i < s.made ∧ (s.streams i).status ≠ .closed then
      some ((s.modify i Stream.deviceCloses).fromDevice i .CLSE [])
    else none

end OpenHtf.Adb
