import OpenHtf.Filesync

/-!
# The filesync service

`FilesyncService` of `plugs.usb.filesync_service`: `stat`, `list`, `recv` and `send`
over a stream to the device.  What the device will send is in the stream from the
start; its segments are the messages to come.
-/

set_option autoImplicit false

namespace OpenHtf.Filesync

open Adb LittleEndian

/-- `stat.S_IFREG | stat.S_IRWXU | stat.S_IRWXG | stat.S_IRWXO`. -/
def DEFAULT_PUSH_MODE : ℕ := 0o100000 ||| 0o700 ||| 0o070 ||| 0o007

def MAX_PUSH_DATA_BYTES : ℕ := 64 * 1024

def MessageType.done : MessageType := ⟨["mtime"], false⟩

/-- The attribute of a message, by its name. -/
def Message.get (ty : MessageType) (name : String) (msg : Message) : Field :=
  ((ty.attributes.zip msg.fields).lookup name).getD (.int 0)

structure DeviceFileStat where
  filename : Field
  mode : Field
  size : Field
  mtime : Field
  deriving DecidableEq

/-! ## The stream of the service -/

/-- What a write to a stream raises: an `AdbStreamClosedError`, an `AdbTimeoutError`
or an `AdbProtocolError`. -/
inductive WriteError where
  | streamClosed
  | timeout
  | protocol
  deriving DecidableEq

/-- From the write with the number `first` on, the stream refuses what is written;
of the data some bytes may have been sent before. -/
structure Refusal where
  first : ℕ
  sent : ℕ := 0
  error : WriteError

/-- The errors of a read, those of a write, `struct.error`, and the `TypeError` of a
file that is to write a number. -/
inductive ServiceError where
  | read (e : FilesyncError)
  | write (e : WriteError)
  | struct
  | type
  deriving DecidableEq

structure Service where
  stream : Stream
  written : List (List UInt8) := []
  refusal : Option Refusal := none

/-- `AdbStream.write`: without data there is nothing to be refused. -/
def Service.write (data : List UInt8) : Act Service ServiceError Unit := fun s ↦
  if data = [] then (.ok (), s)
  else
    match s.refusal with
    | none => (.ok (), { s with written := s.written ++ [data] })
    | some r =>
      if s.written.length < r.first then (.ok (), { s with written := s.written ++ [data] })
      else (.error (.write r.error), { s with written := s.written ++ [data.take r.sent] })

def Service.writeAll : List (List UInt8) → Act Service ServiceError Unit
  | [] => pure ()
  | data :: rest => do
    Service.write data
    Service.writeAll rest

def writeMessage (ty : MessageType) (msg : Message) : Act Service ServiceError Unit :=
  match writes ty msg with
  | none => Act.raise .struct
  | some ws => Service.writeAll ws

def writeData (command : Command) (data : List UInt8) : Act Service ServiceError Unit :=
  writeMessage .data ⟨command, [.str data]⟩

/-- `read_message` of the transport. -/
def receive (T : FilesyncTransport) : Act Service ServiceError Message := fun s ↦
  match readMessage T s.stream with
  | (.ok msg, t) => (.ok msg, { s with stream := t })
  | (.error e, t) => (.error (.read e), { s with stream := t })

def assertCommandIs (command : Command) (msg : Message) : Act Service ServiceError Unit :=
  if msg.command ≠ command then Act.raise (.read (.unexpectedCommand command msg)) else pure ()

/-- A loop over `read_until_done`, whose body gets each message as it is yielded. -/
def forUntilDone {ω : Type} (T : FilesyncTransport) (command : Command)
    (body : ω → Message → Except ServiceError ω) (acc : ω) (s : Stream) :
    Except ServiceError Unit × ω × Stream :=
  match _h : readMessage T s with
  | (.error e, s') => (.error (.read e), acc, s')
  | (.ok msg, s') =>
    if msg.command = .DONE then (.ok (), acc, s')
    else if msg.command ≠ command then (.error (.read (.unexpectedCommand command msg)), acc, s')
    else
      match body acc msg with
      | .error e => (.error e, acc, s')
      | .ok acc => forUntilDone T command body acc s'
termination_by s.contents.length
decreasing_by exact readMessage_lt ‹_›

/-! ## The requests -/

def stat (filename : List UInt8) : Act Service ServiceError DeviceFileStat := do
  writeData .STAT filename
  let msg ← receive .stat
  assertCommandIs .STAT msg
  pure ⟨.str filename, msg.get .stat "mode", msg.get .stat "size", msg.get .stat "time"⟩

/-- What the generator of `list` makes of a message. -/
def dentStat (msg : Message) : DeviceFileStat :=
  ⟨msg.get .dent "name", msg.get .dent "mode", msg.get .dent "size", msg.get .dent "time"⟩

/-- `list`, and its generator up to its end: what it has yielded, and how it ends. -/
def list (path : List UInt8) (s : Service) :
    (List DeviceFileStat × Except ServiceError Unit) × Service :=
  match writeData .LIST path s with
  | (.error e, s) => (([], .error e), s)
  | (.ok _, s) =>
    let (r, stats, t) := forUntilDone .dent .DENT (fun stats msg ↦ .ok (stats ++ [dentStat msg])) [] s.stream
    ((stats, r), { s with stream := t })

/-- `dest_file.write(data_msg.data)`. -/
def destWrite (dest : List UInt8) (msg : Message) : Except ServiceError (List UInt8) :=
  match msg.get .data "data" with
  | .str data => .ok (dest ++ data)
  | .int _ => .error .type

/-- `recv` into an empty file: what is in it in the end, and how the call ends. -/
def recv (filename : List UInt8) (s : Service) : (List UInt8 × Except ServiceError Unit) × Service :=
  match writeData .RECV filename s with
  | (.error e, s) => (([], .error e), s)
  | (.ok _, s) =>
    let (r, dest, t) := forUntilDone .data .DATA destWrite [] s.stream
    ((dest, r), { s with stream := t })

/-- `'%s,%s' % (filename, st_mode)`. -/
def fileinfo (filename : List UInt8) (stMode : ℕ) : List UInt8 :=
  filename ++ 44 :: (Nat.toDigits 10 stMode).map fun c ↦ UInt8.ofNat c.toNat

/-- The arguments of `send`; `reads` is what the reads of the file return, one
after the other, and `now` what `time.time` says. -/
structure Push where
  reads : List (List UInt8)
  filename : List UInt8
  stMode : ℕ := DEFAULT_PUSH_MODE
  mtime : Option ℕ := none
  now : ℕ

/-- `mtime or int(time.time())`. -/
def Push.time (p : Push) : ℕ := if p.mtime.getD 0 = 0 then p.now else p.mtime.getD 0

/-- The loop of `send`, which ends with the first read that returns nothing. -/
def sendData : List (List UInt8) → Act Service ServiceError Unit
  | [] => pure ()
  | data :: reads =>
    if data = [] then pure ()
    else do
      writeData .DATA data
      sendData reads

/-- `_check_for_fail_message`, which always raises. -/
def checkForFailMessage (e : ServiceError) : Act Service ServiceError Unit := fun s ↦
  match receive .data s with
  | (.error (.read (.remoteFailure msg)), s) => (.error (.read (.remoteFailure msg)), s)
  | (_, s) => (.error e, s)

def send (p : Push) : Act Service ServiceError Unit := do
  writeData .SEND (fileinfo p.filename p.stMode)
  Act.catching
    (do
      sendData p.reads
      writeMessage .done ⟨.DONE, [.int p.time]⟩)
    fun e ↦ if e = .write .streamClosed then checkForFailMessage e else Act.raise e
  let msg ← receive .data
  assertCommandIs .OKAY msg

/-! ## What a push writes -/

section Writes

variable {s : Service} {ty : MessageType} {msg : Message}

/-- So many more writes are not refused. -/
def Service.Room (n : ℕ) (s : Service) : Prop := ∀ r ∈ s.refusal, s.written.length + n ≤ r.first

def Service.addWritten (ws : List (List UInt8)) (s : Service) : Service := { s with written := s.written ++ ws }

theorem room_zero_of_room {n : ℕ} (h : s.Room n) : s.Room 0 := fun r hr ↦
  (Nat.add_le_add_left n.zero_le _).trans (h r hr)

theorem writeAll_append (ws ws' : List (List UInt8)) :
    Service.writeAll (ws ++ ws') = (Service.writeAll ws >>= fun _ ↦ Service.writeAll ws') := by
  induction ws with
  | nil => rfl
  | cons data ws ih =>
      funext s
      simp only [List.cons_append, Service.writeAll, ih, Act.bind_apply]
      rcases Service.write data s with ⟨_ | _, t⟩ <;> rfl

theorem write_of_room {data : List UInt8} (hne : data ≠ []) (h : s.Room 1) :
    Service.write data s = (.ok (), s.addWritten [data]) := by
  rw [Service.write, if_neg hne]
  cases hr : s.refusal with
  | none => simp [Service.addWritten, hr]
  | some r =>
      have hlt : s.written.length < r.first := h r hr
      simp [hlt, Service.addWritten, hr]

/-- Writes for which there is room are made. -/
theorem writeAll_of_room {ws : List (List UInt8)} (hne : ∀ data ∈ ws, data ≠ []) (h : s.Room ws.length) :
    Service.writeAll ws s = (.ok (), s.addWritten ws) := by
  induction ws generalizing s with
  | nil => simp [Service.writeAll, Service.addWritten]
  | cons data ws ih =>
      rw [List.forall_mem_cons] at hne
      have hfirst : s.Room 1 := fun r hr ↦ by
        have := h r hr
        simp only [List.length_cons] at this
        omega
      have hrest : (s.addWritten [data]).Room ws.length := fun r hr ↦ by
        have := h r hr
        simp only [List.length_cons] at this
        simp only [Service.addWritten, List.length_append, List.length_singleton]
        omega
      rw [Service.writeAll, Act.bind_apply, write_of_room hne.1 hfirst, Act.andThen, ih hne.2 hrest]
      simp [Service.addWritten]

/-- Of writes for which there is no room, the stream gets a part from the front. -/
theorem writeAll_refused {ws : List (List UInt8)} {r : Refusal} (hne : ∀ data ∈ ws, data ≠ [])
    (hr : s.refusal = some r) (hle : s.written.length ≤ r.first)
    (hlt : r.first < s.written.length + ws.length) :
    ∃ sent, Service.writeAll ws s = (.error (.write r.error), s.addWritten sent) ∧
      sent.flatten <+: ws.flatten := by
  induction ws generalizing s with
  | nil => exact absurd hlt (Nat.not_lt.mpr hle)
  | cons data ws ih =>
      rw [List.forall_mem_cons] at hne
      by_cases hfirst : s.written.length < r.first
      · have hroom : s.Room 1 := fun r' hr' ↦ by
          obtain rfl : r = r' := Option.some.inj (hr.symm.trans hr')
          exact hfirst
        have hlength : (s.addWritten [data]).written.length = s.written.length + 1 := by
          simp [Service.addWritten]
        rw [List.length_cons] at hlt
        obtain ⟨sent, hsent, hprefix⟩ := ih (s := s.addWritten [data]) hne.2 hr (by omega) (by omega)
        refine ⟨data :: sent, ?_, ?_⟩
        · rw [Service.writeAll, Act.bind_apply, write_of_room hne.1 hroom, Act.andThen, hsent]
          simp [Service.addWritten]
        · simpa using hprefix
      · refine ⟨[data.take r.sent], ?_, ?_⟩
        · simp [Service.writeAll, Service.write, hne.1, hr, hfirst, Act.andThen, Service.addWritten]
        · rw [List.flatten_singleton, List.flatten_cons]
          exact (List.take_prefix _ _).trans (List.prefix_append _ _)

end Writes

/-! ### The messages of a push -/

def writesOf (ty : MessageType) (msg : Message) : List (List UInt8) := (writes ty msg).getD []

/-- The bytes of a message on the wire. -/
def encoded (ty : MessageType) (msg : Message) : List UInt8 := (writesOf ty msg).flatten

/-- A request, or a part of a file. -/
def textMessage (command : Command) (data : List UInt8) : Message := ⟨command, [.str data]⟩

def doneMessage (mtime : ℕ) : Message := ⟨.DONE, [.int mtime]⟩

namespace Push

/-- The file as far as it is read. -/
def chunks (p : Push) : List (List UInt8) := p.reads.takeWhile fun data ↦ data ≠ []

def request (p : Push) : List (List UInt8) := writesOf .data (textMessage .SEND (fileinfo p.filename p.stMode))

def body (p : Push) : List (List UInt8) :=
  (p.chunks.flatMap fun data ↦ writesOf .data (textMessage .DATA data)) ++ writesOf .done (doneMessage p.time)

/-- What a push writes, write by write, if nothing is refused. -/
def writes (p : Push) : List (List UInt8) := p.request ++ p.body

/-- The reads return at most what they are asked for, and what goes into a word fits. -/
structure Fits (p : Push) : Prop where
  fileinfo : (fileinfo p.filename p.stMode).length < 2 ^ 32
  reads : ∀ data ∈ p.reads, data.length ≤ MAX_PUSH_DATA_BYTES
  time : p.time < 2 ^ 32

end Push

section Push

variable {p : Push} {s : Service}

theorem ofType_textMessage (command : Command) (data : List UInt8) :
    OfType .data (textMessage command data) :=
  @OfType.withData .data command [] data rfl rfl (by simp)

theorem ofType_doneMessage {mtime : ℕ} (h : mtime < 2 ^ 32) : OfType .done (doneMessage mtime) :=
  @OfType.plain .done .DONE [mtime] rfl rfl (by simpa using h)

theorem fits_textMessage {command : Command} {data : List UInt8} :
    Fits (textMessage command data) ↔ data.length < 2 ^ 32 := by
  simp [Fits, textMessage]

theorem writes_eq_writesOf {ty : MessageType} {msg : Message} (h : OfType ty msg) (hfits : Fits msg) :
    writes ty msg = some (writesOf ty msg) := by
  obtain ⟨ws, hws⟩ := Option.isSome_iff_exists.mp ((writes_isSome_iff h).mpr hfits)
  rw [writesOf, hws, Option.getD_some]

theorem writeMessage_eq {ty : MessageType} {msg : Message} (h : OfType ty msg) (hfits : Fits msg) :
    writeMessage ty msg = Service.writeAll (writesOf ty msg) := by
  rw [writeMessage, writes_eq_writesOf h hfits]

/-- The stream gets no empty writes. -/
theorem ne_nil_of_mem_writesOf {ty : MessageType} {msg : Message} (h : OfType ty msg) (hne : HasPayload msg) :
    ∀ data ∈ writesOf ty msg, data ≠ [] := by
  intro data hmem
  cases hws : writes ty msg with
  | none => simp [writesOf, hws] at hmem
  | some ws =>
      rw [writesOf, hws, Option.getD_some] at hmem
      cases h with
      | plain hdata hlen hlt =>
          rw [writes_plain hdata hlen, Option.map_eq_some_iff] at hws
          obtain ⟨header, hheader, rfl⟩ := hws
          obtain rfl := List.mem_singleton.mp hmem
          rw [← List.length_pos_iff, header_length hlen hheader, MessageType.structWords]
          omega
      | withData hdata hlen hlt =>
          rw [writes_withData hdata hlen, Option.map_eq_some_iff] at hws
          obtain ⟨header, hheader, rfl⟩ := hws
          rcases List.mem_pair.mp hmem with rfl | rfl
          · rw [← List.length_pos_iff, header_length (by simpa using hlen) hheader, MessageType.structWords]
            omega
          · exact hne _ (by simp)

theorem hasPayload_textMessage {command : Command} {data : List UInt8} (h : data ≠ []) :
    HasPayload (textMessage command data) := by
  simpa [HasPayload, textMessage] using h

theorem hasPayload_doneMessage (mtime : ℕ) : HasPayload (doneMessage mtime) := by
  simp [HasPayload, doneMessage]

theorem fits_doneMessage (mtime : ℕ) : Fits (doneMessage mtime) := by
  simp [Fits, doneMessage]

theorem sendData_eq {reads : List (List UInt8)} (h : ∀ data ∈ reads, data.length ≤ MAX_PUSH_DATA_BYTES) :
    sendData reads = Service.writeAll ((reads.takeWhile fun data ↦ data ≠ []).flatMap fun data ↦
      writesOf .data (textMessage .DATA data)) := by
  induction reads with
  | nil => rfl
  | cons data reads ih =>
      rw [List.forall_mem_cons] at h
      rw [sendData]
      split
      · subst data
        rfl
      · have hfits : Fits (textMessage .DATA data) :=
          fits_textMessage.mpr (h.1.trans_lt (by decide))
        have hwrite : writeData .DATA data = Service.writeAll (writesOf .data (textMessage .DATA data)) :=
          writeMessage_eq (ofType_textMessage .DATA data) hfits
        rw [List.takeWhile_cons_of_pos (by simpa using ‹data ≠ []›), List.flatMap_cons, writeAll_append,
          hwrite, ih h.2]

namespace Push

theorem Fits.request (h : p.Fits) :
    writeData .SEND (Filesync.fileinfo p.filename p.stMode) = Service.writeAll p.request :=
  writeMessage_eq (ofType_textMessage _ _) (fits_textMessage.mpr h.fileinfo)

theorem Fits.body (h : p.Fits) :
    (sendData p.reads >>= fun _ ↦ writeMessage .done (doneMessage p.time)) = Service.writeAll p.body := by
  rw [Push.body, writeAll_append, sendData_eq h.reads,
    writeMessage_eq (ofType_doneMessage h.time) (fits_doneMessage _)]
  rfl

theorem fileinfo_ne_nil (filename : List UInt8) (stMode : ℕ) : Filesync.fileinfo filename stMode ≠ [] := by
  simp [Filesync.fileinfo]

theorem ne_nil_of_mem_chunks {data : List UInt8} (h : data ∈ p.chunks) : data ≠ [] := by
  simpa using List.all_eq_true.mp List.all_takeWhile data h

theorem ne_nil_of_mem_request : ∀ data ∈ p.request, data ≠ [] :=
  ne_nil_of_mem_writesOf (ofType_textMessage _ _) (hasPayload_textMessage (fileinfo_ne_nil _ _))

theorem ne_nil_of_mem_body (h : p.Fits) : ∀ data ∈ p.body, data ≠ [] := by
  intro data hmem
  rcases List.mem_append.mp hmem with hmem | hmem
  · obtain ⟨chunk, hchunk, hmem⟩ := List.mem_flatMap.mp hmem
    exact ne_nil_of_mem_writesOf (ofType_textMessage _ _)
      (hasPayload_textMessage (ne_nil_of_mem_chunks hchunk)) data hmem
  · exact ne_nil_of_mem_writesOf (ofType_doneMessage h.time) (hasPayload_doneMessage _) data hmem

end Push

/-! ### How a push ends -/

/-- `send` as the writes that it comes to. -/
theorem send_eq (h : p.Fits) :
    send p = (do
      Service.writeAll p.request
      Act.catching (Service.writeAll p.body) fun e ↦
        if e = .write .streamClosed then checkForFailMessage e else Act.raise e
      let msg ← receive .data
      assertCommandIs .OKAY msg) := by
  rw [send, h.request, ← h.body]
  rfl

/-- What a push raises of which the stream refused a write: a closed stream may still
have a message that tells why. -/
def Push.refusedWith (p : Push) (r : Refusal) (s : Service) : ServiceError :=
  if r.error = .streamClosed ∧ s.written.length + p.request.length ≤ r.first then
    match (readMessage .data s.stream).1 with
    | .error (.remoteFailure msg) => .read (.remoteFailure msg)
    | _ => .write r.error
  else .write r.error

/-- The device has acknowledged the push. -/
def Acknowledged (s : Stream) : Prop := ∃ msg t, readMessage .data s = (.ok msg, t) ∧ msg.command = .OKAY

@[simp] theorem addWritten_stream (ws : List (List UInt8)) (s : Service) :
    (s.addWritten ws).stream = s.stream := rfl

@[simp] theorem addWritten_written (ws : List (List UInt8)) (s : Service) :
    (s.addWritten ws).written = s.written ++ ws := rfl

@[simp] theorem addWritten_refusal (ws : List (List UInt8)) (s : Service) :
    (s.addWritten ws).refusal = s.refusal := rfl

theorem receive_written (T : FilesyncTransport) (s : Service) : (receive T s).2.written = s.written := by
  unfold receive
  rcases readMessage T s.stream with ⟨_ | _, t⟩ <;> rfl

theorem checkForFailMessage_eq (e : ServiceError) (s : Service) :
    (checkForFailMessage e s).1 =
        .error (match (readMessage .data s.stream).1 with
          | .error (.remoteFailure msg) => .read (.remoteFailure msg)
          | _ => e) ∧
      (checkForFailMessage e s).2.written = s.written := by
  unfold checkForFailMessage receive
  rcases readMessage .data s.stream with ⟨e' | msg, t⟩
  · cases e' <;> exact ⟨rfl, rfl⟩
  · exact ⟨rfl, rfl⟩

/-- The end of `send`, where the device is to acknowledge. -/
theorem receive_okay (s : Service) :
    ((receive .data >>= assertCommandIs .OKAY) s).2.written = s.written ∧
      (((receive .data >>= assertCommandIs .OKAY) s).1 = .ok () ↔ Acknowledged s.stream) := by
  have hwritten := receive_written .data s
  unfold Acknowledged
  rw [Act.bind_apply]
  unfold receive at hwritten ⊢
  rcases hread : readMessage .data s.stream with ⟨e | msg, t⟩
  · simp [Act.andThen]
  · by_cases hcommand : msg.command = .OKAY
    · simp [Act.andThen, assertCommandIs, hcommand]
    · simp [Act.andThen, assertCommandIs, hcommand]

/-- When nothing is refused, `send` comes to its end, where the device is to acknowledge. -/
theorem send_eq_of_room (h : p.Fits) (hroom : s.Room p.writes.length) :
    send p s = (receive .data >>= assertCommandIs .OKAY) (s.addWritten p.writes) := by
  have hrequest : s.Room p.request.length := fun r hr ↦ by
    have := hroom r hr
    simp only [Push.writes, List.length_append] at this
    omega
  have hbody : (s.addWritten p.request).Room p.body.length := fun r hr ↦ by
    have := hroom r hr
    simp only [Push.writes, List.length_append] at this
    simp only [addWritten_written, List.length_append]
    omega
  have hall : s.addWritten p.writes = (s.addWritten p.request).addWritten p.body := by
    simp [Push.writes, Service.addWritten]
  rw [send_eq h, Act.bind_apply, writeAll_of_room Push.ne_nil_of_mem_request hrequest, Act.andThen,
    Act.bind_apply, Act.catching, writeAll_of_room (Push.ne_nil_of_mem_body h) hbody, hall]
  rfl

theorem send_of_room (h : p.Fits) (hroom : s.Room p.writes.length) :
    (send p s).2.written = s.written ++ p.writes ∧ ((send p s).1 = .ok () ↔ Acknowledged s.stream) := by
  rw [send_eq_of_room h hroom]
  exact receive_okay (s.addWritten p.writes)

theorem send_of_refused (h : p.Fits) {r : Refusal} (hr : s.refusal = some r) (hle : s.written.length ≤ r.first)
    (hlt : r.first < s.written.length + p.writes.length) :
    (send p s).1 = .error (p.refusedWith r s) ∧
      ∃ sent, (send p s).2.written = s.written ++ sent ∧ sent.flatten <+: p.writes.flatten := by
  rw [Push.writes, List.length_append] at hlt
  rw [send_eq h, Act.bind_apply, Push.writes, List.flatten_append]
  by_cases hrequest : s.written.length + p.request.length ≤ r.first
  · have hroom : s.Room p.request.length := fun r' hr' ↦ by
      obtain rfl : r = r' := Option.some.inj (hr.symm.trans hr')
      exact hrequest
    obtain ⟨sent, hsent, hprefix⟩ := writeAll_refused (s := s.addWritten p.request) (Push.ne_nil_of_mem_body h)
      hr (by simpa using hrequest) (by simp only [addWritten_written, List.length_append]; omega)
    have hwritten : ∀ t : Service, t.written = ((s.addWritten p.request).addWritten sent).written →
        ∃ sent, t.written = s.written ++ sent ∧ sent.flatten <+: p.request.flatten ++ p.body.flatten := by
      intro t ht
      refine ⟨p.request ++ sent, by simp [ht], ?_⟩
      rw [List.flatten_append]
      exact (List.prefix_append_right_inj _).mpr hprefix
    rw [writeAll_of_room Push.ne_nil_of_mem_request hroom, Act.andThen, Act.bind_apply, Act.catching, hsent]
    by_cases hclosed : r.error = .streamClosed
    · obtain ⟨herror, hsame⟩ := checkForFailMessage_eq (.write .streamClosed)
        ((s.addWritten p.request).addWritten sent)
      simp only [hclosed, if_true]
      rcases hcheck : checkForFailMessage (.write .streamClosed) ((s.addWritten p.request).addWritten sent)
        with ⟨e | a, t⟩
      · rw [hcheck] at herror hsame
        refine ⟨?_, hwritten t hsame⟩
        rw [Push.refusedWith, if_pos ⟨hclosed, hrequest⟩, hclosed]
        exact herror
      · rw [hcheck] at herror
        cases herror
    · have hne : ServiceError.write r.error ≠ .write .streamClosed := by simpa using hclosed
      simp only [hne, if_false]
      refine ⟨?_, hwritten _ rfl⟩
      rw [Push.refusedWith, if_neg fun hand ↦ hclosed hand.1]
      rfl
  · obtain ⟨sent, hsent, hprefix⟩ := writeAll_refused (@Push.ne_nil_of_mem_request p) hr hle (by omega)
    rw [hsent]
    refine ⟨?_, sent, rfl, hprefix.trans (List.prefix_append _ _)⟩
    rw [Push.refusedWith, if_neg fun hand ↦ hrequest hand.2]
    rfl

example :
    (send { reads := [[104, 105]], filename := [47, 97], now := 7 }
      { stream := { segments := [[70, 65, 73, 76, 2, 0], [0, 0, 110, 111]] }
        refusal := some { first := 3, sent := 1, error := .streamClosed } }).1 =
      .error (.read (.remoteFailure ⟨.FAIL, [.str [110, 111]]⟩)) := by decide +kernel

end Push

end OpenHtf.Filesync
