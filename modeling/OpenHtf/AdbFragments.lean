import OpenHtf.AdbHandshake
import OpenHtf.AdbWrites

/-!
# What a write to an ADB stream sends

`AdbStream.write` by one thread, over a connection with the `maxdata` of the
handshake and a device that acknowledges each WRTE, and that may write on the
stream before it does.  No timeout expires.
-/

set_option autoImplicit false

namespace OpenHtf.Adb.Fragments

open Handshake (Accepts accepts_iff)

/-! ## The write -/

/-- Errors of the stream, or of packing a message. -/
inductive WriteError where
  | stream (e : StreamError)
  | message (e : MessageError)

/-- The stream's transport, the messages for it that have not been read, and what
has been sent on it. -/
structure Link where
  transport : StreamTransport
  incoming : List AdbMessage := []
  sent : List AdbMessage := []

namespace Link

def setTransport (t : StreamTransport) (l : Link) : Link := { l with transport := t }

def setIncoming (messages : List AdbMessage) (l : Link) : Link := { l with incoming := messages }

def addSent (m : AdbMessage) (l : Link) : Link := { l with sent := l.sent ++ [m] }

/-- A message for the stream, from this side or from the device. -/
def toDevice (command : Command) (data : List UInt8) (l : Link) : AdbMessage :=
  ⟨command, l.transport.localId, l.transport.remoteId.getD 0, data⟩

def fromDevice (command : Command) (data : List UInt8) (l : Link) : AdbMessage :=
  ⟨command, l.transport.remoteId.getD 0, l.transport.localId, data⟩

end Link

/-- The payloads of the WRTEs among the messages. -/
def payloads (messages : List AdbMessage) : List (List UInt8) :=
  (messages.filter fun m ↦ m.command = .WRTE).map AdbMessage.data

/-- `write_message`, which raises for a header that cannot be packed. -/
def writeMessage (m : AdbMessage) : Act Link WriteError Unit :=
  match m.header with
  | none => Act.raise (.message .doesNotFit)
  | some _ => Act.modify (Link.addSent m)

/-- `read_for_stream` has read the message; a WRTE is acknowledged. -/
def acknowledge (m : AdbMessage) : Act Link WriteError Unit := fun l ↦
  match m.command with
  | .WRTE =>
    match l.transport.remote with
    | none => (.error (.stream (.wrteBeforeOkay m)), l)
    | some _ => writeMessage (l.toDevice .OKAY []) l
  | _ => (.ok (), l)

/-- `_handle_message`. -/
def handleMessage (m : AdbMessage) : Act Link WriteError Unit := fun l ↦
  match l.transport.handleMessage m true with
  | (.error e, t) => (.error (.stream e), l.setTransport t)
  | (.ok (), t) => (.ok (), l.setTransport t)

/-- `_read_messages_until_true` for `not self._expecting_okay`, over the messages
that have not been read. -/
def readMessagesUntilOkay : List AdbMessage → Act Link WriteError Unit
  | [] => fun l ↦
    if l.transport.expectingOkay then (.error (.stream .timedOut), l.setIncoming [])
    else (.ok (), l.setIncoming [])
  | m :: rest => fun l ↦
    if l.transport.expectingOkay then
      (do
        acknowledge m
        handleMessage m
        readMessagesUntilOkay rest : Act Link WriteError Unit) l
    else (.ok (), l.setIncoming (m :: rest))

/-- The end of `AdbStreamTransport.write`. -/
def awaitOkay : Act Link WriteError Unit := fun l ↦ readMessagesUntilOkay l.incoming l

section Write

variable (device : ℕ → List (List UInt8)) (maxdata : ℕ)

/-- The device has received a WRTE, the `n`-th one: it writes and acknowledges. -/
def answer (n : ℕ) (l : Link) : Link :=
  l.setIncoming (l.incoming ++ (device n).map (l.fromDevice .WRTE) ++ [l.fromDevice .OKAY []])

/-- `_send_command` with WRTE. -/
def sendWrte (data : List UInt8) : Act Link WriteError Unit := fun l ↦
  match l.transport.checkSend maxdata data with
  | .error e => (.error (.stream e), l)
  | .ok () =>
    (do
      writeMessage (l.toDevice .WRTE data)
      Act.modify (answer device (payloads l.sent).length) : Act Link WriteError Unit) l

/-- `AdbStreamTransport.write`. -/
def transportWrite (data : List UInt8) : Act Link WriteError Unit := fun l ↦
  match l.transport.checkWrite with
  | .error e => (.error (.stream e), l)
  | .ok () =>
    (do
      Act.modify fun l ↦ l.setTransport (l.transport.expectOkay true)
      sendWrte device maxdata data
      awaitOkay : Act Link WriteError Unit) l

/-- `AdbStream.write`, if it ends within so many rounds of its loop. -/
def write : ℕ → List UInt8 → Link → Option (Except WriteError Unit × Link)
  | 0, _, _ => none
  | fuel + 1, data, l =>
    if data = [] then some (.ok (), l)
    else
      match transportWrite device maxdata (data.take maxdata) l with
      | (.error e, l) => some (.error e, l)
      | (.ok (), l) => write fuel (data.drop maxdata) l

/-! ## Delivery -/

/-- The stream is open, and its remote id is `id`. -/
structure OpenAs (id : ℕ) (t : StreamTransport) : Prop where
  remoteId : t.remoteId = some id
  id_ne_zero : id ≠ 0
  id_lt : id < 2 ^ 32
  localId_lt : t.localId < 2 ^ 32
  closedState : t.closedState = .OPEN

/-- The stream is open, and no acknowledgement is pending. -/
structure Ready (l : Link) : Prop where
  isOpen : ∃ id, OpenAs id l.transport
  expectingOkay : l.transport.expectingOkay = false
  incoming : ∀ m ∈ l.incoming, m.command = .WRTE

/-- The write ends, and has sent the data in WRTEs of at most `maxdata` bytes. -/
def Delivers (data : List UInt8) (l : Link) : Prop :=
  ∃ fuel l' chunks, write device maxdata fuel data l = some (.ok (), l') ∧
    payloads l'.sent = payloads l.sent ++ chunks ∧ chunks.flatten = data ∧
    ∀ chunk ∈ chunks, chunk.length ≤ maxdata

end Write

/-! ## One WRTE -/

section Lemmas

variable {device : ℕ → List (List UInt8)} {maxdata id : ℕ} {t : StreamTransport} {l : Link}

theorem payloads_append (ms ms' : List AdbMessage) :
    payloads (ms ++ ms') = payloads ms ++ payloads ms' := by
  simp [payloads]

namespace OpenAs

theorem remote (hopen : OpenAs id t) : t.remote = some id := by
  rw [StreamTransport.remote, hopen.remoteId]
  split
  · rename_i h
    exact absurd (Option.some.inj h) hopen.id_ne_zero
  · rfl

theorem expectOkay (hopen : OpenAs id t) (b : Bool) : OpenAs id (t.expectOkay b) :=
  ⟨hopen.remoteId, hopen.id_ne_zero, hopen.id_lt, hopen.localId_lt, hopen.closedState⟩

theorem writeMessage (hopen : OpenAs id l.transport) (command : Command) {data : List UInt8}
    (hlength : data.length < 2 ^ 32) :
    writeMessage (l.toDevice command data) l = (.ok (), l.addSent (l.toDevice command data)) := by
  have harg1 : (l.toDevice command data).arg1 < 2 ^ 32 := by
    rw [Link.toDevice, hopen.remoteId]
    exact hopen.id_lt
  obtain ⟨header, hheader⟩ := (header_isSome_iff (m := l.toDevice command data)
    hopen.localId_lt harg1).mpr hlength
  rw [Fragments.writeMessage, hheader]
  rfl

/-- A WRTE of the device is acknowledged. -/
theorem acknowledge_wrte (hopen : OpenAs id l.transport) {m : AdbMessage} (hm : m.command = .WRTE) :
    acknowledge m l = (.ok (), l.addSent (l.toDevice .OKAY [])) := by
  rw [acknowledge, hm]
  simp only [hopen.remote]
  exact hopen.writeMessage .OKAY (by norm_num)

theorem handleMessage_okay (hopen : OpenAs id l.transport) (hexpecting : l.transport.expectingOkay = true)
    {m : AdbMessage} (hm : m.command = .OKAY) (harg0 : m.arg0 = id) :
    handleMessage m l = (.ok (), l.setTransport (l.transport.expectOkay false)) := by
  have hset : l.transport.setOrCheckRemoteId m.arg0 = .ok l.transport := by
    rw [StreamTransport.setOrCheckRemoteId, hopen.remote, harg0]
    exact if_pos rfl
  rw [handleMessage, StreamTransport.handleMessage, hm]
  simp only [hset, hexpecting, if_true]
  rfl

theorem handleMessage_wrte {m : AdbMessage} (hm : m.command = .WRTE) :
    handleMessage m l = (.ok (), l.setTransport
      { l.transport with readBuffer := l.transport.readBuffer.append m.data }) := by
  rw [handleMessage, StreamTransport.handleMessage, hm]
  rfl

end OpenAs

theorem acknowledge_okay {m : AdbMessage} (hm : m.command = .OKAY) : acknowledge m l = (.ok (), l) := by
  rw [acknowledge, hm]

/-- A round of the loop. -/
theorem readMessagesUntilOkay_cons {m : AdbMessage} {rest : List AdbMessage} {l₁ l₂ : Link}
    (hexpecting : l.transport.expectingOkay = true) (hacknowledge : acknowledge m l = (.ok (), l₁))
    (hhandle : handleMessage m l₁ = (.ok (), l₂)) :
    readMessagesUntilOkay (m :: rest) l = readMessagesUntilOkay rest l₂ := by
  simp only [readMessagesUntilOkay, hexpecting, if_true, Act.bind_apply, hacknowledge, Act.andThen, hhandle]

/-- The messages up to the OKAY are read, by induction on the WRTEs before it. -/
theorem readMessagesUntilOkay_ok {wrtes : List AdbMessage} {okay : AdbMessage}
    (hopen : OpenAs id l.transport) (hexpecting : l.transport.expectingOkay = true)
    (hwrtes : ∀ m ∈ wrtes, m.command = .WRTE) (hokay : okay.command = .OKAY) (harg0 : okay.arg0 = id) :
    ∃ l', readMessagesUntilOkay (wrtes ++ [okay]) l = (.ok (), l') ∧ Ready l' ∧
      payloads l'.sent = payloads l.sent := by
  induction wrtes generalizing l with
  | nil =>
      have hhandle := hopen.handleMessage_okay hexpecting hokay harg0
      refine ⟨(l.setTransport (l.transport.expectOkay false)).setIncoming [], ?_, ?_, rfl⟩
      · rw [List.nil_append, readMessagesUntilOkay_cons hexpecting (acknowledge_okay hokay) hhandle]
        rfl
      · exact ⟨⟨id, hopen.expectOkay false⟩, rfl, fun m hm ↦ absurd hm List.not_mem_nil⟩
  | cons m wrtes ih =>
      have hm := hwrtes m List.mem_cons_self
      have hacknowledge := hopen.acknowledge_wrte hm
      have hhandle := OpenAs.handleMessage_wrte (l := l.addSent (l.toDevice .OKAY [])) hm
      have hopen' : OpenAs id ((l.addSent (l.toDevice .OKAY [])).setTransport
          { l.transport with readBuffer := l.transport.readBuffer.append m.data }).transport :=
        ⟨hopen.remoteId, hopen.id_ne_zero, hopen.id_lt, hopen.localId_lt, hopen.closedState⟩
      obtain ⟨l', hread, hready, hpayloads⟩ :=
        ih hopen' hexpecting (fun m' hm' ↦ hwrtes m' (List.mem_cons_of_mem m hm'))
      refine ⟨l', ?_, hready, ?_⟩
      · rw [List.cons_append, readMessagesUntilOkay_cons hexpecting hacknowledge hhandle]
        exact hread
      · rw [hpayloads, Link.setTransport, Link.addSent, payloads_append]
        simp [payloads, Link.toDevice]

/-- WRTE is sent, and the device answers. -/
theorem OpenAs.sendWrte (hopen : OpenAs id l.transport) (device : ℕ → List (List UInt8))
    {data : List UInt8} (hlength : data.length ≤ maxdata) (hmaxdata : maxdata < 2 ^ 32) :
    sendWrte device maxdata data l =
      (.ok (), answer device (payloads l.sent).length (l.addSent (l.toDevice .WRTE data))) := by
  have hsend : l.transport.checkSend maxdata data = .ok () := by
    rw [StreamTransport.checkSend, if_neg (not_lt.mpr hlength), hopen.remote]
  simp only [Fragments.sendWrte, hsend, Act.bind_apply, Act.andThen, Act.modify_apply,
    hopen.writeMessage .WRTE (hlength.trans_lt hmaxdata)]

/-- A write of at most `maxdata` bytes sends them in one WRTE. -/
theorem Ready.transportWrite (hready : Ready l) (device : ℕ → List (List UInt8)) {data : List UInt8}
    (hlength : data.length ≤ maxdata) (hmaxdata : maxdata < 2 ^ 32) :
    ∃ l', transportWrite device maxdata data l = (.ok (), l') ∧ Ready l' ∧
      payloads l'.sent = payloads l.sent ++ [data] := by
  obtain ⟨id, hopen⟩ := hready.isOpen
  have hcheck : l.transport.checkWrite = .ok () := by
    rw [StreamTransport.checkWrite, hopen.remote]
    simp [hopen.closedState, hready.expectingOkay]
  have hopen' : OpenAs id (l.setTransport (l.transport.expectOkay true)).transport :=
    hopen.expectOkay true
  have hsend := hopen'.sendWrte device hlength hmaxdata
  -- the messages that wait are WRTEs, and the OKAY is the last one behind them
  have hwrtes : ∀ m ∈ l.incoming ++ (device (payloads l.sent).length).map (l.fromDevice .WRTE),
      m.command = .WRTE := by
    intro m hm
    obtain hm | hm := List.mem_append.mp hm
    · exact hready.incoming m hm
    · obtain ⟨data, -, rfl⟩ := List.mem_map.mp hm
      rfl
  have harg0 : (l.fromDevice .OKAY []).arg0 = id := by
    rw [Link.fromDevice, hopen.remoteId]
    rfl
  obtain ⟨l', hread, hready', hpayloads⟩ := readMessagesUntilOkay_ok (l := answer device
    (payloads l.sent).length ((l.setTransport (l.transport.expectOkay true)).addSent
      (l.toDevice .WRTE data))) hopen' rfl hwrtes rfl harg0
  refine ⟨l', ?_, hready', ?_⟩
  · simp only [Fragments.transportWrite, hcheck, Act.bind_apply, Act.modify_apply, Act.andThen, hsend]
    exact hread
  · rw [hpayloads, answer, Link.setIncoming, Link.addSent, payloads_append]
    rfl

/-! ## The loop -/

/-- Every round sends a chunk, by induction on the bytes that are left. -/
theorem delivers_of_pos (hmaxdata : maxdata < 2 ^ 32) (hpos : 0 < maxdata) {data : List UInt8}
    (hready : Ready l) : Delivers device maxdata data l := by
  induction hlength : data.length using Nat.strong_induction_on generalizing data l with
  | _ n ih =>
      by_cases hdata : data = []
      · exact ⟨1, l, [], by rw [write, if_pos hdata], (List.append_nil _).symm, hdata.symm, by simp⟩
      · have hchunk : (data.take maxdata).length ≤ maxdata := List.length_take_le _ _
        obtain ⟨l₁, hwrite, hready₁, hpayloads₁⟩ :=
          hready.transportWrite device hchunk hmaxdata
        have hshorter : (data.drop maxdata).length < n := by
          have := List.length_pos_iff.mpr hdata
          rw [List.length_drop]
          omega
        obtain ⟨fuel, l', chunks, hrest, hpayloads, hflatten, hchunks⟩ := ih _ hshorter hready₁ rfl
        refine ⟨fuel + 1, l', data.take maxdata :: chunks, ?_, ?_, ?_, ?_⟩
        · rw [write, if_neg hdata, hwrite]
          exact hrest
        · rw [hpayloads, hpayloads₁, List.append_assoc, List.singleton_append]
        · rw [List.flatten_cons, hflatten, List.take_append_drop]
        · rw [List.forall_mem_cons]
          exact ⟨hchunk, hchunks⟩

/-- With a `maxdata` of `0` nothing is ever cut off the data. -/
theorem write_zero {data : List UInt8} (hdata : data ≠ []) (fuel : ℕ) (hready : Ready l) :
    write device 0 fuel data l = none := by
  induction fuel generalizing l with
  | zero => rfl
  | succ fuel ih =>
      have hempty : ([] : List UInt8).length ≤ 0 := le_rfl
      obtain ⟨l', hwrite, hready', -⟩ := hready.transportWrite device hempty (by norm_num)
      rw [write, if_neg hdata, List.take_zero, hwrite]
      exact ih hready'

theorem write_nil (fuel : ℕ) : write device maxdata (fuel + 1) [] l = some (.ok (), l) := rfl

/-! ## The result -/

/-- With a `maxdata` that the handshake accepts, a write ends and sends the data in
fragments if and only if `maxdata` is not `0` or there is nothing to send. -/
theorem delivers_iff (haccepts : Accepts maxdata) (hready : Ready l) (data : List UInt8) :
    Delivers device maxdata data l ↔ maxdata ≠ 0 ∨ data = [] := by
  constructor
  · rintro ⟨fuel, l', chunks, hwrite, -⟩
    by_contra hneither
    obtain ⟨hzero, hdata⟩ := not_or.mp hneither
    obtain rfl := not_not.mp hzero
    rw [write_zero hdata fuel hready] at hwrite
    contradiction
  · rintro (hpos | rfl)
    · exact delivers_of_pos ((accepts_iff maxdata).mp haccepts) (Nat.pos_of_ne_zero hpos) hready
    · exact ⟨1, l, [], write_nil 0, (List.append_nil _).symm, rfl, by simp⟩

end Lemmas

/-- A stream that has just been opened. -/
def opened : Link where
  transport := { localId := 1, remoteId := some 7, closedState := .OPEN, expectingOkay := false }

theorem ready_opened : Ready opened where
  isOpen := ⟨7, rfl, by decide, by decide, by decide, rfl⟩
  expectingOkay := rfl
  incoming := fun m hm ↦ absurd hm List.not_mem_nil

theorem delivers_opened_iff :
    Delivers (fun _ ↦ [[1]]) 4 [1, 2, 3, 4, 5, 6] opened ↔
      (4 : ℕ) ≠ 0 ∨ ([1, 2, 3, 4, 5, 6] : List UInt8) = [] :=
  delivers_iff ((accepts_iff 4).mpr (by decide)) ready_opened _

/-- The handshake accepts a `maxdata` of `0`, with which a write of one byte does
not end. -/
theorem accepts_zero_not_delivers :
    ¬∀ maxdata data, Accepts maxdata → Delivers (fun _ ↦ []) maxdata data opened := by
  intro h
  obtain ⟨fuel, l', chunks, hwrite, -⟩ := h 0 [65] ((accepts_iff 0).mpr (by decide))
  rw [write_zero (by decide) fuel ready_opened] at hwrite
  contradiction

end OpenHtf.Adb.Fragments
