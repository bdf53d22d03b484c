import OpenHtf.AdbMessage
import OpenHtf.ReadBuffer

/-!
# The transport of one ADB stream

The data of an `AdbStreamTransport` and what it does with a message, without the
threads that share it.
-/

set_option autoImplicit false

namespace OpenHtf.Adb

inductive ClosedState where
  | CLOSED
  | PENDING
  | OPEN
  deriving DecidableEq

/-- What the calls on a stream raise: an `AssertionError`, `AdbProtocolError`s
with what their texts show, and errors of a closed stream and of a timeout. -/
inductive StreamError where
  | badClosedState
  | remoteIdChange (remoteId : ℕ)
  | unexpectedOkay (message : AdbMessage)
  | wrteBeforeOkay (message : AdbMessage)
  | messageTooLong (data : List UInt8)
  | sendBeforeOkay (data : List UInt8)
  | unexpectedMessage (message : AdbMessage)
  | previousWrteFailed
  | cannotWrite
  | streamClosed
  | timedOut
  deriving DecidableEq

def StreamError.IsProtocolError : StreamError → Prop
  | badClosedState | cannotWrite | streamClosed | timedOut => False
  | _ => True

structure StreamTransport where
  localId : ℕ
  remoteId : Option ℕ := none
  closedState : ClosedState := .PENDING
  messageQueue : List AdbMessage := []
  readBuffer : ReadBuffer UInt8 := {}
  expectingOkay : Bool := true
  deriving DecidableEq

namespace StreamTransport

/-- The remote id, unless `not self.remote_id`. -/
def remote (t : StreamTransport) : Option ℕ :=
  match t.remoteId with
  | some 0 => none
  | id => id

def setOrCheckRemoteId (remoteId : ℕ) (t : StreamTransport) : Except StreamError StreamTransport :=
  match t.remote with
  | none =>
    if t.closedState = .PENDING then .ok { t with remoteId := some remoteId, closedState := .OPEN }
    else .error .badClosedState
  | some id => if id = remoteId then .ok t else .error (.remoteIdChange remoteId)

/-- `_handle_message`. -/
def handleMessage (message : AdbMessage) (handleWrte : Bool) (t : StreamTransport) :
    Except StreamError Unit × StreamTransport :=
  match message.command with
  | .OKAY =>
    match t.setOrCheckRemoteId message.arg0 with
    | .error e => (.error e, t)
    | .ok t =>
      if t.expectingOkay then (.ok (), { t with expectingOkay := false })
      else (.error (.unexpectedOkay message), t)
  | .CLSE => (.ok (), { t with closedState := .CLOSED })
  | _ =>
    if handleWrte then (.ok (), { t with readBuffer := t.readBuffer.append message.data })
    else (.error (.wrteBeforeOkay message), t)

/-- An OKAY for the stream with this remote id. -/
def okay (t : StreamTransport) (remoteId : ℕ) : AdbMessage := ⟨.OKAY, t.localId, remoteId, []⟩

/-- What `enqueue_message` does before it puts the message into the queue: it
tells what is sent. -/
def acknowledge (message : AdbMessage) (t : StreamTransport) :
    Except StreamError (List AdbMessage × StreamTransport) :=
  match message.command with
  | .WRTE =>
    match t.remote with
    | none => .error (.sendBeforeOkay [])
    | some id => .ok ([t.okay id], t)
  | .OKAY => (t.setOrCheckRemoteId message.arg0).map fun t ↦ ([], t)
  | _ => .ok ([], t)

end StreamTransport

end OpenHtf.Adb
