import OpenHtf.FilesyncService

/-!
# Sessions with the filesync service

The service on the device sits in a loop over one stream, so that many requests are
made over it one after the other.  The device is any that keeps to the message format
of `plugs.usb.filesync_service`; what it makes of a request is a parameter.
-/

set_option autoImplicit false

namespace OpenHtf.Filesync

open Adb LittleEndian

/-! ## The device -/

/-- A string whose length fits into a word. -/
structure Text where
  bytes : List UInt8
  length_lt : bytes.length < 2 ^ 32

/-- One that is not empty, as the names and the parts of files that the device sends. -/
structure Payload extends Text where
  ne_nil : bytes ≠ []

/-- What `lstat` says of a file. -/
structure Lstat where
  mode : UInt32
  size : UInt32
  time : UInt32

structure Dirent where
  name : Payload
  lstat : Lstat

/-- A device with states `σ`: its files, the parts in which it sends one and the text
with which it fails, and what storing a file does. -/
structure Device (σ : Type) where
  lstat : σ → List UInt8 → Lstat
  listing : σ → List UInt8 → List Dirent
  contents : σ → List UInt8 → List Payload × Option Text
  store : σ → List UInt8 → ℕ → List UInt8 → ℕ → Option Text × σ

/-- What a request asks of the device. -/
inductive Request where
  | stat (path : List UInt8)
  | list (path : List UInt8)
  | recv (path : List UInt8)
  | send (filename : List UInt8) (mode : ℕ) (data : List UInt8) (mtime : ℕ)

/-! ### Its answers -/

def Lstat.fields (st : Lstat) : List Field := [.int st.mode.toNat, .int st.size.toNat, .int st.time.toNat]

def statMessage (st : Lstat) : Message := ⟨.STAT, st.fields⟩

def dentMessage (e : Dirent) : Message := ⟨.DENT, e.lstat.fields ++ [.str e.name.bytes]⟩

/-- DONE with `u32[4] = 0`. -/
def dentDone : Message := ⟨.DONE, [.int 0, .int 0, .int 0, .str []]⟩

def encodedAll (ty : MessageType) (msgs : List Message) : List UInt8 := msgs.flatMap (encoded ty)

/-- The end of a transfer. -/
def endMessage (failure : Option Text) (command : Command) : Message :=
  match failure with
  | none => textMessage command []
  | some t => textMessage .FAIL t.bytes

namespace Device

variable {σ : Type} (D : Device σ)

/-- The bytes that answer a request, and the state of the device behind it. -/
def answer (d : σ) : Request → List UInt8 × σ
  | .stat path => (encoded .stat (statMessage (D.lstat d path)), d)
  | .list path => (encodedAll .dent ((D.listing d path).map dentMessage) ++ encoded .dent dentDone, d)
  | .recv path =>
    let (chunks, failure) := D.contents d path
    (encodedAll .data (chunks.map fun c ↦ textMessage .DATA c.bytes) ++ encoded .data (endMessage failure .DONE), d)
  | .send filename mode data mtime =>
    let (failure, d') := D.store d filename mode data mtime
    (encoded .data (endMessage failure .OKAY), d')

end Device

/-! ### Its side of the stream -/

/-- The transport of requests. -/
def FilesyncTransport.request : FilesyncTransport := ⟨.data, [.STAT, .LIST, .SEND, .RECV]⟩

def Message.text (msg : Message) : List UInt8 :=
  match msg.get .data "data" with
  | .str data => data
  | .int _ => []

/-- The filename and the mode of a SEND, which stand before and behind its last comma. -/
def splitFileinfo (info : List UInt8) : Option (List UInt8 × ℕ) :=
  match info.reverse.dropWhile (· ≠ 44) with
  | [] => none
  | _ :: filename =>
    some (filename.reverse,
      Nat.ofDigitChars 10 ((info.reverse.takeWhile (· ≠ 44)).reverse.map fun b ↦ Char.ofNat b.toNat) 0)

/-- A part of a push: a piece of the file, or its time at the end. -/
inductive PushPart where
  | data (bytes : List UInt8)
  | done (mtime : ℕ)

/-- What follows the header of a part. -/
def readBody (command : Command) (ints : List ℕ) : Act Stream FilesyncError PushPart :=
  if command = .DONE then pure (.done (ints.headD 0))
  else if command = .DATA then do
    let fields ← readFields .data ints
    pure (.data (Message.text ⟨.DATA, fields⟩))
  else Act.raise (.notValidResponse command)

def readPart : Act Stream FilesyncError PushPart := do
  let rawData ← Stream.read 8
  let header ← Act.ofExcept (unpackMessage .data rawData)
  readBody header.1 header.2

theorem readBody_le {command : Command} {ints : List ℕ} {s s' : Stream} {part : PushPart}
    (h : readBody command ints s = (.ok part, s')) : s'.contents.length ≤ s.contents.length := by
  unfold readBody at h
  split at h
  · obtain ⟨-, rfl⟩ := Prod.mk.inj h
    exact le_rfl
  split at h
  · obtain ⟨fields, t, hfields, h⟩ := Act.bind_eq_ok_iff.mp h
    obtain ⟨-, rfl⟩ := Prod.mk.inj h
    exact readFields_le hfields
  · cases h

theorem readPart_lt {s s' : Stream} {part : PushPart} (h : readPart s = (.ok part, s')) :
    s'.contents.length < s.contents.length := by
  obtain ⟨rawData, t, hread, h⟩ := Act.bind_eq_ok_iff.mp h
  obtain ⟨header, u, hunpack, h⟩ := Act.bind_eq_ok_iff.mp h
  obtain ⟨-, rfl⟩ := Prod.mk.inj hunpack
  obtain ⟨hcontents, hne⟩ := Stream.read_ok hread
  have hpos : 0 < rawData.length := List.length_pos_iff.mpr hne
  have hle := readBody_le h
  rw [← hcontents, List.length_append]
  omega

/-- The DATA messages of a SEND and the time in the DONE behind them. -/
def readPush (s : Stream) : Except FilesyncError (List UInt8 × ℕ) × Stream :=
  match _h : readPart s with
  | (.error e, s') => (.error e, s')
  | (.ok (.done mtime), s') => (.ok ([], mtime), s')
  | (.ok (.data bytes), s') =>
    match readPush s' with
    | (.error e, t) => (.error e, t)
    | (.ok (rest, mtime), t) => (.ok (bytes ++ rest, mtime), t)
termination_by s.contents.length
decreasing_by exact readPart_lt ‹_›

def readRequest (s : Stream) : Option Request × Stream :=
  match readMessage .request s with
  | (.error _, s') => (none, s')
  | (.ok msg, s') =>
    match msg.command with
    | .STAT => (some (.stat msg.text), s')
    | .LIST => (some (.list msg.text), s')
    | .RECV => (some (.recv msg.text), s')
    | _ =>
      match splitFileinfo msg.text, readPush s' with
      | some (filename, mode), (.ok (data, mtime), s'') => (some (.send filename mode data mtime), s'')
      | _, (_, s'') => (none, s'')

theorem readPush_le {s s' : Stream} {r : List UInt8 × ℕ} (h : readPush s = (.ok r, s')) :
    s'.contents.length ≤ s.contents.length := by
  induction hlen : s.contents.length using Nat.strong_induction_on generalizing s s' r with
  | _ n ih =>
      subst hlen
      rcases hpart : readPart s with ⟨e | bytes | mtime, t⟩
      · rw [readPush, hpart] at h
        cases h
      · have hlt := readPart_lt hpart
        rw [readPush, hpart] at h
        rcases hrest : readPush t with ⟨e | r', u⟩
        · simp [hrest] at h
        · have hle := ih _ hlt hrest rfl
          simp only [hrest] at h
          obtain ⟨-, rfl⟩ := Prod.mk.inj h
          omega
      · rw [readPush, hpart] at h
        obtain ⟨-, rfl⟩ := Prod.mk.inj h
        exact (readPart_lt hpart).le

theorem readRequest_lt {s s' : Stream} {req : Request} (h : readRequest s = (some req, s')) :
    s'.contents.length < s.contents.length := by
  unfold readRequest at h
  rcases hread : readMessage .request s with ⟨e | msg, t⟩
  · simp [hread] at h
  · have hlt := readMessage_lt hread
    simp only [hread] at h
    split at h
    · obtain ⟨-, rfl⟩ := Prod.mk.inj h
      exact hlt
    · obtain ⟨-, rfl⟩ := Prod.mk.inj h
      exact hlt
    · obtain ⟨-, rfl⟩ := Prod.mk.inj h
      exact hlt
    · split at h
      · have hle := readPush_le ‹_›
        obtain ⟨-, rfl⟩ := Prod.mk.inj h
        omega
      · cases h

/-- The loop of the service on the device, until its stream ends or makes no sense. -/
def Device.serve {σ : Type} (D : Device σ) (d : σ) (s : Stream) : List UInt8 × σ :=
  match _h : readRequest s with
  | (none, _) => ([], d)
  | (some req, s') =>
    let (bytes, d) := D.answer d req
    let (rest, d) := D.serve d s'
    (bytes ++ rest, d)
termination_by s.contents.length
decreasing_by exact readRequest_lt ‹_›

/-! ## The host -/

inductive Op where
  | stat (filename : List UInt8)
  | list (path : List UInt8)
  | recv (filename : List UInt8)
  | send (p : Push)

/-- What a call comes to for its caller: what it returns or raises, and what it has
yielded or written to the file. -/
inductive Result where
  | stat (r : Except ServiceError DeviceFileStat)
  | list (stats : List DeviceFileStat) (r : Except ServiceError Unit)
  | recv (dest : List UInt8) (r : Except ServiceError Unit)
  | send (r : Except ServiceError Unit)

def perform : Op → Service → Result × Service
  | .stat filename, s =>
    let (r, s) := stat filename s
    (.stat r, s)
  | .list path, s =>
    let ((stats, r), s) := list path s
    (.list stats r, s)
  | .recv filename, s =>
    let ((dest, r), s) := recv filename s
    (.recv dest r, s)
  | .send p, s =>
    let (r, s) := send p s
    (.send r, s)

/-- Calls one after the other; a caller that catches what a call raises goes on. -/
def session : List Op → Service → List Result × Service
  | [], s => ([], s)
  | op :: ops, s =>
    let (r, s) := perform op s
    let (rs, s) := session ops s
    (r :: rs, s)

/-! ## What a session means -/

def Lstat.fileStat (filename : List UInt8) (st : Lstat) : DeviceFileStat :=
  ⟨.str filename, .int st.mode.toNat, .int st.size.toNat, .int st.time.toNat⟩

/-- How a transfer with a device ends that may have failed. -/
def endResult : Option Text → Except ServiceError Unit
  | none => .ok ()
  | some t => .error (.read (.remoteFailure (textMessage .FAIL t.bytes).received))

namespace Device

variable {σ : Type} (D : Device σ)

/-- A call as the device alone decides it, without a stream in between. -/
def meaning (d : σ) : Op → Result × σ
  | .stat filename => (.stat (.ok ((D.lstat d filename).fileStat filename)), d)
  | .list path => (.list ((D.listing d path).map fun e ↦ e.lstat.fileStat e.name.bytes) (.ok ()), d)
  | .recv filename =>
    let (chunks, failure) := D.contents d filename
    (.recv (chunks.flatMap fun c ↦ c.bytes) (endResult failure), d)
  | .send p =>
    let (failure, d) := D.store d p.filename p.stMode p.chunks.flatten p.time
    (.send (endResult failure), d)

def meanings (d : σ) : List Op → List Result × σ
  | [] => ([], d)
  | op :: ops =>
    let (r, d) := D.meaning d op
    let (rs, d) := meanings d ops
    (r :: rs, d)

end Device

/-- What goes into a word fits. -/
def Op.Fits : Op → Prop
  | .stat path | .list path | .recv path => path.length < 2 ^ 32
  | .send p => p.Fits

/-! ## Reading what was encoded -/

section Encoded

variable {T : FilesyncTransport} {msg : Message} {rest : List UInt8} {s : Stream}

theorem readMessage_encoded (h : Response T msg) (hfits : Fits msg)
    (hs : s.contents = encoded T.recvMsgType msg ++ rest) :
    ∃ s', readMessage T s = (.ok msg.received, s') ∧ s'.contents = rest :=
  readMessage_written h (writes_eq_writesOf h.ofType hfits) hs

theorem fits_text (t : Text) (command : Command) : Fits (textMessage command t.bytes) :=
  fits_textMessage.mpr t.length_lt

theorem fits_fields (st : Lstat) {command : Command} {rest : List Field} (h : Fits ⟨command, rest⟩) :
    Fits ⟨command, st.fields ++ rest⟩ := by
  intro data hmem
  rcases List.mem_append.mp hmem with hmem | hmem
  · simp [Lstat.fields] at hmem
  · exact h data hmem

theorem encoded_textMessage {command : Command} {data : List UInt8} (h : data.length < 2 ^ 32) :
    ∃ header, packWords 4 [Command.wire.cmdToWire command, data.length] = some header ∧
      encoded .data (textMessage command data) = header ++ data := by
  have hform : writes .data (textMessage command data) =
      (packWords 4 [Command.wire.cmdToWire command, data.length]).map fun header ↦ [header, data] :=
    @writes_withData .data command [] data rfl rfl
  obtain ⟨header, hheader, hws⟩ := Option.map_eq_some_iff.mp
    (hform.symm.trans (writes_eq_writesOf (ofType_textMessage command data) (fits_textMessage.mpr h)))
  exact ⟨header, hheader, by simp [encoded, ← hws]⟩

theorem encoded_doneMessage {mtime : ℕ} (h : mtime < 2 ^ 32) :
    packWords 4 [Command.wire.cmdToWire .DONE, mtime] = some (encoded .done (doneMessage mtime)) := by
  have hform : writes .done (doneMessage mtime) =
      (packWords 4 [Command.wire.cmdToWire .DONE, mtime]).map fun header ↦ [header] :=
    @writes_plain .done .DONE [mtime] rfl rfl
  obtain ⟨header, hheader, hws⟩ := Option.map_eq_some_iff.mp
    (hform.symm.trans (writes_eq_writesOf (ofType_doneMessage h) (fits_doneMessage mtime)))
  rw [hheader, encoded, ← hws, List.flatten_singleton]

/-- A FAIL is read to its end, and raised with its text. -/
theorem readMessage_fail {t : Text} (hs : s.contents = encoded .data (textMessage .FAIL t.bytes) ++ rest) :
    ∃ s', readMessage .data s = (.error (.remoteFailure (textMessage .FAIL t.bytes).received), s') ∧
      s'.contents = rest := by
  obtain ⟨header, hheader, hencoded⟩ := @encoded_textMessage .FAIL _ t.length_lt
  have hunpack := @unpackMessage_of_packWords .data _ _ _ rfl hheader
  have hlength := @header_length .data _ _ _ rfl hheader
  have hne : header ≠ [] := by
    rw [← List.length_pos_iff, hlength]
    decide
  rw [hencoded, List.append_assoc] at hs
  obtain ⟨u, hread, hu⟩ := Stream.read_append hs hne
  obtain ⟨s', hfields, hs'⟩ := @readFields_withData .data [] _ _ _ rfl hu
  rw [hlength] at hread
  refine ⟨s', ?_, hs'⟩
  have hfields' : readFields .data [t.bytes.length] u = (.ok (textMessage .FAIL t.bytes).received.fields, s') := hfields
  have hty : FilesyncTransport.data.recvMsgType = .data := rfl
  have hvalid : Command.FAIL ∈ FilesyncTransport.data.validResponses := by decide
  simp only [readMessage, Act.bind_apply, hty, hread, Act.andThen, Act.ofExcept_apply, hunpack, hfields']
  simp [hvalid, Message.received, textMessage]

theorem encodedAll_append (ty : MessageType) (msgs msgs' : List Message) :
    encodedAll ty (msgs ++ msgs') = encodedAll ty msgs ++ encodedAll ty msgs' :=
  List.flatMap_append

section Loop

variable {ω : Type} {command : Command} (body : ω → Message → Except ServiceError ω)

/-- The loop over `read_until_done` ends with `r` at bytes that begin here, and `rest`
follows. -/
def Ends (T : FilesyncTransport) (command : Command) (after : List UInt8) (r : Except ServiceError Unit)
    (rest : List UInt8) : Prop :=
  ∀ (acc : ω) (s : Stream), s.contents = after →
    ∃ t, forUntilDone T command body acc s = (r, acc, t) ∧ t.contents = rest

theorem ends_done (command : Command) (h : Response T msg) (hfits : Fits msg) (hdone : msg.command = .DONE) :
    Ends body T command (encoded T.recvMsgType msg ++ rest) (.ok ()) rest := by
  intro acc s hs
  obtain ⟨t, hread, ht⟩ := readMessage_encoded h hfits hs
  have hreceived : msg.received.command = .DONE := hdone
  refine ⟨t, ?_, ht⟩
  rw [forUntilDone, hread]
  simp [hreceived]

theorem ends_fail (command : Command) (t : Text) :
    Ends body .data command (encoded .data (textMessage .FAIL t.bytes) ++ rest) (endResult (some t)) rest := by
  intro acc s hs
  obtain ⟨u, hread, hu⟩ := readMessage_fail hs
  refine ⟨u, ?_, hu⟩
  rw [forUntilDone, hread]
  rfl

/-- It goes through messages that its body accepts. -/
theorem forUntilDone_encoded (step : ω → Message → ω) {msgs : List Message} {after : List UInt8}
    {r : Except ServiceError Unit} (acc : ω) (hmsgs : ∀ msg ∈ msgs, Response T msg ∧ Fits msg)
    (hcommand : ∀ msg ∈ msgs, msg.command = command) (hne : command ≠ .DONE)
    (hbody : ∀ msg ∈ msgs, ∀ acc, body acc msg.received = .ok (step acc msg))
    (hend : Ends body T command after r rest) (hs : s.contents = encodedAll T.recvMsgType msgs ++ after) :
    ∃ t, forUntilDone T command body acc s = (r, msgs.foldl step acc, t) ∧ t.contents = rest := by
  induction msgs generalizing acc s with
  | nil => exact hend acc s hs
  | cons msg msgs ih =>
      rw [List.forall_mem_cons] at hmsgs hcommand hbody
      rw [encodedAll, List.flatMap_cons, List.append_assoc] at hs
      obtain ⟨u, hread, hu⟩ := readMessage_encoded hmsgs.1.1 hmsgs.1.2 hs
      obtain ⟨t, hrest, ht⟩ := ih (step acc msg) hmsgs.2 hcommand.2 hbody.2 hu
      refine ⟨t, ?_, ht⟩
      have hreceived : msg.received.command = command := hcommand.1
      rw [forUntilDone, hread]
      simp only [hreceived, hne, if_false, ne_eq, not_true_eq_false, hbody.1 acc]
      exact hrest

end Loop

theorem response_textMessage {command : Command} (hvalid : command ∈ T.validResponses) (hfail : command ≠ .FAIL)
    (hty : T.recvMsgType = .data) (data : List UInt8) : Response T (textMessage command data) :=
  ⟨hty ▸ ofType_textMessage command data, hvalid, hfail⟩

theorem Lstat.fields_lt (st : Lstat) : ∀ n ∈ [st.mode.toNat, st.size.toNat, st.time.toNat], n < 2 ^ 32 := by
  simpa using ⟨st.mode.toNat_lt, st.size.toNat_lt, st.time.toNat_lt⟩

theorem response_statMessage (st : Lstat) : Response .stat (statMessage st) where
  ofType := @OfType.plain .stat .STAT _ rfl rfl st.fields_lt
  valid := List.mem_singleton_self _
  notFail := Command.noConfusion

theorem response_dentMessage (e : Dirent) : Response .dent (dentMessage e) where
  ofType := @OfType.withData .dent .DENT _ e.name.bytes rfl rfl e.lstat.fields_lt
  valid := List.mem_cons_self
  notFail := Command.noConfusion

theorem response_dentDone : Response .dent dentDone where
  ofType := @OfType.withData .dent .DONE [0, 0, 0] [] rfl rfl (by decide)
  valid := by decide
  notFail := by decide

theorem fits_statMessage (st : Lstat) : Fits (statMessage st) := by
  simp [Fits, statMessage, Lstat.fields]

theorem fits_dentMessage (e : Dirent) : Fits (dentMessage e) := by
  simpa [Fits, dentMessage, Lstat.fields] using e.name.length_lt

theorem fits_dentDone : Fits dentDone := by
  simp [Fits, dentDone]

theorem received_textMessage {command : Command} {data : List UInt8} (h : data ≠ []) :
    (textMessage command data).received = textMessage command data :=
  received_eq_self_iff.mpr (hasPayload_textMessage h)

theorem received_dentMessage (e : Dirent) : (dentMessage e).received = dentMessage e := by
  refine received_eq_self_iff.mpr ?_
  simpa [HasPayload, dentMessage, Lstat.fields] using e.name.ne_nil

end Encoded

/-! ## Single calls -/

section Calls

variable {σ : Type} (D : Device σ) (d : σ) {s : Service} {rest : List UInt8}

/-- A stream that refuses nothing, with these bytes to come. -/
structure Service.Awaits (bytes : List UInt8) (s : Service) : Prop where
  contents : s.stream.contents = bytes
  refusal : s.refusal = none

/-- The call wrote these bytes, and left the stream at what follows the answer. -/
structure Went (s : Service) (bytes rest : List UInt8) (s' : Service) : Prop extends s'.Awaits rest where
  written : s'.written.flatten = s.written.flatten ++ bytes

/-- A stream that refuses nothing gets every write that is not empty. -/
theorem writeAll_of_free (ws : List (List UInt8)) (hs : s.refusal = none) :
    ∃ ws', Service.writeAll ws s = (.ok (), s.addWritten ws') ∧ ws'.flatten = ws.flatten := by
  induction ws generalizing s with
  | nil => exact ⟨[], by simp [Service.writeAll, Service.addWritten], rfl⟩
  | cons data ws ih =>
      by_cases hdata : data = []
      · obtain ⟨ws', hws, hflatten⟩ := ih hs
        refine ⟨ws', ?_, by simp [hdata, hflatten]⟩
        rw [Service.writeAll, Act.bind_apply, Service.write, if_pos hdata, Act.andThen, hws]
      · obtain ⟨ws', hws, hflatten⟩ := @ih (s.addWritten [data]) hs
        refine ⟨data :: ws', ?_, by simp [hflatten]⟩
        have hroom : s.Room 1 := by simp [Service.Room, hs]
        rw [Service.writeAll, Act.bind_apply, write_of_room hdata hroom, Act.andThen, hws]
        simp [Service.addWritten]

theorem writeData_eq {command : Command} {data : List UInt8} (h : data.length < 2 ^ 32)
    (hs : s.refusal = none) :
    ∃ ws, writeData command data s = (.ok (), s.addWritten ws) ∧
      ws.flatten = encoded .data (textMessage command data) := by
  have hwrite : writeData command data = Service.writeAll (writesOf .data (textMessage command data)) :=
    writeMessage_eq (ofType_textMessage command data) (fits_textMessage.mpr h)
  rw [hwrite]
  exact writeAll_of_free _ hs

/-- After the request, what is left to do is a reading of the stream. -/
theorem went_of_reads {ws : List (List UInt8)} {bytes answer : List UInt8} {t : Stream}
    (hs : s.Awaits answer) (hws : ws.flatten = bytes) (ht : t.contents = rest) :
    Went s bytes rest { s.addWritten ws with stream := t } where
  contents := ht
  refusal := hs.refusal
  written := by simp [hws]

theorem stat_went {path : List UInt8} (h : path.length < 2 ^ 32)
    (hs : s.Awaits (encoded .stat (statMessage (D.lstat d path)) ++ rest)) :
    ∃ s', stat path s = (.ok ((D.lstat d path).fileStat path), s') ∧
      Went s (encoded .data (textMessage .STAT path)) rest s' := by
  obtain ⟨ws, hwrite, hws⟩ := @writeData_eq s .STAT path h hs.refusal
  obtain ⟨t, hread, ht⟩ := readMessage_encoded (response_statMessage _) (fits_statMessage _) hs.contents
  refine ⟨_, ?_, went_of_reads hs hws ht⟩
  rw [stat, Act.bind_apply, hwrite, Act.andThen, Act.bind_apply, receive, addWritten_stream, hread]
  rfl

theorem dentStat_dentMessage (e : Dirent) : dentStat (dentMessage e) = e.lstat.fileStat e.name.bytes := rfl

theorem list_went {path : List UInt8} (h : path.length < 2 ^ 32)
    (hs : s.Awaits ((D.answer d (.list path)).1 ++ rest)) :
    ∃ s', list path s = (((D.listing d path).map fun e ↦ e.lstat.fileStat e.name.bytes, .ok ()), s') ∧
      Went s (encoded .data (textMessage .LIST path)) rest s' := by
  obtain ⟨ws, hwrite, hws⟩ := @writeData_eq s .LIST path h hs.refusal
  have hend : Ends (fun stats msg ↦ .ok (stats ++ [dentStat msg])) .dent .DENT
      (encoded .dent dentDone ++ rest) (.ok ()) rest :=
    ends_done _ .DENT response_dentDone fits_dentDone rfl
  have hcontents : s.stream.contents =
      encodedAll .dent ((D.listing d path).map dentMessage) ++ (encoded .dent dentDone ++ rest) := by
    rw [hs.contents, Device.answer, List.append_assoc]
  obtain ⟨t, hloop, ht⟩ := forUntilDone_encoded _ (fun stats msg ↦ stats ++ [dentStat msg]) []
    (by simpa using fun e _ ↦ ⟨response_dentMessage e, fits_dentMessage e⟩) (by simp [dentMessage]) (by decide)
    (by simp [received_dentMessage]) hend hcontents
  refine ⟨_, ?_, went_of_reads hs hws ht⟩
  rw [list, hwrite]
  simp only [addWritten_stream, hloop, List.foldl_append_eq_append, List.map_map, Function.comp_def,
    dentStat_dentMessage, List.nil_append, ← List.flatMap_def, ← List.map_eq_flatMap]

theorem text_textMessage (command : Command) (data : List UInt8) : (textMessage command data).text = data := rfl

theorem recv_went {filename : List UInt8} (h : filename.length < 2 ^ 32)
    (hs : s.Awaits ((D.answer d (.recv filename)).1 ++ rest)) :
    ∃ s', recv filename s =
        (((D.contents d filename).1.flatMap fun c ↦ c.bytes, endResult (D.contents d filename).2), s') ∧
      Went s (encoded .data (textMessage .RECV filename)) rest s' := by
  obtain ⟨ws, hwrite, hws⟩ := @writeData_eq s .RECV filename h hs.refusal
  have hend : ∀ failure, Ends destWrite .data .DATA (encoded .data (endMessage failure .DONE) ++ rest)
      (endResult failure) rest := by
    rintro (_ | t)
    · exact ends_done _ .DATA (response_textMessage (by decide) (by decide) rfl [])
        (fits_textMessage.mpr (by decide)) rfl
    · exact ends_fail _ .DATA t
  have hcontents : s.stream.contents =
      encodedAll .data ((D.contents d filename).1.map fun c ↦ textMessage .DATA c.bytes) ++
        (encoded .data (endMessage (D.contents d filename).2 .DONE) ++ rest) := by
    rw [hs.contents, Device.answer, List.append_assoc]
  have hbody : ∀ msg ∈ (D.contents d filename).1.map fun c ↦ textMessage .DATA c.bytes, ∀ dest,
      destWrite dest msg.received = .ok (dest ++ msg.text) := by
    simp only [List.forall_mem_map]
    intro c _ dest
    rw [received_textMessage c.ne_nil]
    rfl
  obtain ⟨t, hloop, ht⟩ := forUntilDone_encoded _ (fun dest msg ↦ dest ++ msg.text) []
    (by simpa using fun c _ ↦ ⟨response_textMessage (by decide) (by decide) rfl _, fits_text _ _⟩)
    (by simp [textMessage]) (by decide) hbody (hend _) hcontents
  refine ⟨_, ?_, went_of_reads hs hws ht⟩
  rw [recv, hwrite]
  simp only [addWritten_stream, hloop, List.foldl_append_eq_append, List.map_map, Function.comp_def,
    text_textMessage, List.nil_append, ← List.flatMap_def]

theorem send_went {p : Push} {failure : Option Text} (h : p.Fits)
    (hs : s.Awaits (encoded .data (endMessage failure .OKAY) ++ rest)) :
    ∃ s', send p s = (endResult failure, s') ∧ Went s p.writes.flatten rest s' := by
  have hroom : s.Room p.writes.length := by simp [Service.Room, hs.refusal]
  rw [send_eq_of_room h hroom, Act.bind_apply]
  cases failure with
  | none =>
      have hokay : Response .data (textMessage .OKAY []) := response_textMessage (by decide) (by decide) rfl []
      obtain ⟨t, hread, ht⟩ := readMessage_encoded hokay (fits_textMessage.mpr (by decide)) hs.contents
      refine ⟨_, ?_, went_of_reads hs rfl ht⟩
      rw [receive, addWritten_stream, hread]
      rfl
  | some text =>
      obtain ⟨t, hread, ht⟩ := readMessage_fail hs.contents
      refine ⟨_, ?_, went_of_reads hs rfl ht⟩
      rw [receive, addWritten_stream, hread]
      rfl

end Calls

/-! ## What the device gets -/

/-- What a call writes. -/
def Op.bytes : Op → List UInt8
  | .stat filename => encoded .data (textMessage .STAT filename)
  | .list path => encoded .data (textMessage .LIST path)
  | .recv filename => encoded .data (textMessage .RECV filename)
  | .send p => p.writes.flatten

def Op.request : Op → Request
  | .stat filename => .stat filename
  | .list path => .list path
  | .recv filename => .recv filename
  | .send p => .send p.filename p.stMode p.chunks.flatten p.time

section Requests

variable {s : Stream} {rest : List UInt8}

theorem text_received (command : Command) (data : List UInt8) :
    (textMessage command data).received.text = data := by
  cases data <;> rfl

theorem readMessage_request {command : Command} {data : List UInt8} (hvalid : command ∈ [.STAT, .LIST, .SEND, .RECV])
    (h : data.length < 2 ^ 32) (hs : s.contents = encoded .data (textMessage command data) ++ rest) :
    ∃ s', readMessage .request s = (.ok (textMessage command data).received, s') ∧ s'.contents = rest := by
  have hfail : command ≠ .FAIL := by
    rintro rfl
    revert hvalid
    decide
  exact readMessage_encoded (T := .request) (response_textMessage hvalid hfail rfl data) (fits_textMessage.mpr h) hs

theorem readPart_data {data : List UInt8} (h : data.length < 2 ^ 32)
    (hs : s.contents = encoded .data (textMessage .DATA data) ++ rest) :
    ∃ s', readPart s = (.ok (.data data), s') ∧ s'.contents = rest := by
  obtain ⟨header, hheader, hencoded⟩ := @encoded_textMessage .DATA _ h
  have hunpack := @unpackMessage_of_packWords .data _ _ _ rfl hheader
  have hlength := @header_length .data _ _ _ rfl hheader
  have hheaderNe : header ≠ [] := by
    rw [← List.length_pos_iff, hlength]
    decide
  rw [hencoded, List.append_assoc] at hs
  obtain ⟨u, hread, hu⟩ := Stream.read_append hs hheaderNe
  obtain ⟨s', hfields, hs'⟩ := @readFields_withData .data [] _ _ _ rfl hu
  rw [hlength] at hread
  refine ⟨s', Act.bind_eq_ok_iff.mpr ⟨header, u, hread, ?_⟩, hs'⟩
  refine Act.bind_eq_ok_iff.mpr ⟨_, u, Prod.ext hunpack rfl, ?_⟩
  have hbody : readBody .DATA [data.length] u = (.ok (.data (textMessage .DATA data).received.text), s') :=
    Act.bind_eq_ok_iff.mpr ⟨_, s', hfields, rfl⟩
  rw [hbody, text_received]

theorem readPart_done {mtime : ℕ} (h : mtime < 2 ^ 32) (hs : s.contents = encoded .done (doneMessage mtime) ++ rest) :
    ∃ s', readPart s = (.ok (.done mtime), s') ∧ s'.contents = rest := by
  have hheader := encoded_doneMessage h
  have hunpack := @unpackMessage_of_packWords .data _ _ _ rfl hheader
  have hlength := @header_length .data _ _ _ rfl hheader
  have hheaderNe : encoded .done (doneMessage mtime) ≠ [] := by
    rw [← List.length_pos_iff, hlength]
    decide
  obtain ⟨s', hread, hs'⟩ := Stream.read_append hs hheaderNe
  rw [hlength] at hread
  refine ⟨s', Act.bind_eq_ok_iff.mpr ⟨_, s', hread, ?_⟩, hs'⟩
  exact Act.bind_eq_ok_iff.mpr ⟨_, s', Prod.ext hunpack rfl, rfl⟩

theorem readPush_encoded {chunks : List (List UInt8)} {mtime : ℕ}
    (hchunks : ∀ data ∈ chunks, data.length < 2 ^ 32) (h : mtime < 2 ^ 32)
    (hs : s.contents = encodedAll .data (chunks.map (textMessage .DATA)) ++ (encoded .done (doneMessage mtime) ++ rest)) :
    ∃ s', readPush s = (.ok (chunks.flatten, mtime), s') ∧ s'.contents = rest := by
  induction chunks generalizing s with
  | nil =>
      obtain ⟨s', hpart, hs'⟩ := readPart_done h hs
      exact ⟨s', by rw [readPush, hpart]; rfl, hs'⟩
  | cons data chunks ih =>
      rw [List.forall_mem_cons] at hchunks
      rw [List.map_cons, encodedAll, List.flatMap_cons, List.append_assoc] at hs
      obtain ⟨t, hpart, ht⟩ := readPart_data hchunks.1 hs
      obtain ⟨s', hpush, hs'⟩ := ih hchunks.2 ht
      refine ⟨s', ?_, hs'⟩
      rw [readPush, hpart]
      simp [hpush]

/-- A decimal digit as a byte. -/
theorem digit_byte {c : Char} (h : c.isDigit = true) :
    UInt8.ofNat c.toNat ≠ 44 ∧ Char.ofNat (UInt8.ofNat c.toNat).toNat = c := by
  have hrange : 48 ≤ c.toNat ∧ c.toNat ≤ 57 := by
    simpa [Char.isDigit, UInt32.le_iff_toNat_le] using h
  have hbyte : (UInt8.ofNat c.toNat).toNat = c.toNat := by
    rw [UInt8.toNat_ofNat']
    omega
  constructor
  · intro heq
    rw [heq] at hbyte
    have : (44 : UInt8).toNat = 44 := rfl
    omega
  · rw [hbyte, Char.ofNat_toNat]

/-- The last comma is the one before the mode. -/
theorem splitFileinfo_fileinfo (filename : List UInt8) (stMode : ℕ) :
    splitFileinfo (fileinfo filename stMode) = some (filename, stMode) := by
  have hdigit : ∀ c ∈ Nat.toDigits 10 stMode, c.isDigit = true := fun c hc ↦
    Nat.isDigit_of_mem_toDigits (by decide) (by decide) hc
  set digits := (Nat.toDigits 10 stMode).map fun c ↦ UInt8.ofNat c.toNat with hdigits
  have hno : ∀ b ∈ digits.reverse, decide (b ≠ 44) = true := by
    simpa [hdigits] using fun c hc ↦ (digit_byte (hdigit c hc)).1
  have hchars : digits.map (fun b ↦ Char.ofNat b.toNat) = Nat.toDigits 10 stMode := by
    rw [hdigits, List.map_map]
    conv_rhs => rw [← List.map_id (Nat.toDigits 10 stMode)]
    exact List.map_congr_left fun c hc ↦ (digit_byte (hdigit c hc)).2
  have hreverse : (fileinfo filename stMode).reverse = digits.reverse ++ 44 :: filename.reverse := by
    simp [fileinfo, hdigits]
  rw [splitFileinfo, hreverse, List.dropWhile_append_of_pos hno, List.takeWhile_append_of_pos hno,
    List.dropWhile_cons_of_neg (by decide), List.takeWhile_cons_of_neg (by decide), List.append_nil,
    List.reverse_reverse, hchars, Nat.ofDigitChars_ten_toDigits]
  simp

theorem body_flatten (p : Push) :
    p.body.flatten = encodedAll .data (p.chunks.map (textMessage .DATA)) ++ encoded .done (doneMessage p.time) := by
  simp only [Push.body, encodedAll, encoded, List.flatten_append, List.flatMap_def, List.flatten_flatten,
    List.map_map, Function.comp_def]

/-- The device gets what a call asks for, however what the call writes is cut. -/
theorem readRequest_bytes {op : Op} (h : op.Fits) (hs : s.contents = op.bytes ++ rest) :
    ∃ s', readRequest s = (some op.request, s') ∧ s'.contents = rest := by
  cases op with
  | stat filename =>
      obtain ⟨s', hread, hs'⟩ := readMessage_request (by decide) h hs
      refine ⟨s', ?_, hs'⟩
      simp only [readRequest, hread, text_received]
      rfl
  | list path =>
      obtain ⟨s', hread, hs'⟩ := readMessage_request (by decide) h hs
      refine ⟨s', ?_, hs'⟩
      simp only [readRequest, hread, text_received]
      rfl
  | recv filename =>
      obtain ⟨s', hread, hs'⟩ := readMessage_request (by decide) h hs
      refine ⟨s', ?_, hs'⟩
      simp only [readRequest, hread, text_received]
      rfl
  | send p =>
      have hbytes : s.contents = encoded .data (textMessage .SEND (fileinfo p.filename p.stMode)) ++
          (encodedAll .data (p.chunks.map (textMessage .DATA)) ++ (encoded .done (doneMessage p.time) ++ rest)) := by
        rw [hs, Op.bytes, Push.writes, List.flatten_append, body_flatten]
        simp [Push.request, encoded]
      obtain ⟨t, hread, ht⟩ := readMessage_request (by decide) h.fileinfo hbytes
      have hchunks : ∀ data ∈ p.chunks, data.length < 2 ^ 32 := fun data hdata ↦
        (h.reads data ((List.takeWhile_prefix _).subset hdata)).trans_lt (by decide)
      obtain ⟨s', hpush, hs'⟩ := readPush_encoded hchunks h.time ht
      refine ⟨s', ?_, hs'⟩
      simp only [readRequest, hread, text_received, splitFileinfo_fileinfo, hpush]
      rfl

end Requests

/-! ## Sessions -/

section Sessions

variable {σ : Type} (D : Device σ)

/-- A call over a stream with the answer of the device comes to what the device alone
makes of it. -/
theorem perform_went {op : Op} (h : op.Fits) (d : σ) {s : Service} {rest : List UInt8}
    (hs : s.Awaits ((D.answer d op.request).1 ++ rest)) :
    ∃ s', perform op s = ((D.meaning d op).1, s') ∧ Went s op.bytes rest s' := by
  cases op with
  | stat filename =>
      obtain ⟨s', hstat, hwent⟩ := stat_went D d h hs
      exact ⟨s', by rw [perform, hstat]; rfl, hwent⟩
  | list path =>
      obtain ⟨s', hlist, hwent⟩ := list_went D d h hs
      exact ⟨s', by rw [perform, hlist]; rfl, hwent⟩
  | recv filename =>
      obtain ⟨s', hrecv, hwent⟩ := recv_went D d h hs
      exact ⟨s', by rw [perform, hrecv]; rfl, hwent⟩
  | send p =>
      obtain ⟨s', hsend, hwent⟩ := send_went h hs
      exact ⟨s', by rw [perform, hsend]; rfl, hwent⟩

theorem answer_snd (d : σ) (op : Op) : (D.answer d op.request).2 = (D.meaning d op).2 := by
  cases op <;> rfl

/-- The bytes of the calls, and of the answers to them. -/
def Device.answers (d : σ) : List Op → List UInt8
  | [] => []
  | op :: ops => (D.answer d op.request).1 ++ answers (D.meaning d op).2 ops

theorem serve_bytes {ops : List Op} (h : ∀ op ∈ ops, op.Fits) (d : σ) {s : Stream}
    (hs : s.contents = ops.flatMap Op.bytes) :
    D.serve d s = (D.answers d ops, (D.meanings d ops).2) := by
  induction ops generalizing d s with
  | nil =>
      have hnone : (readRequest s).1 = none := by
        rcases hrequest : readRequest s with ⟨_ | req, t⟩
        · rfl
        · have hlt := readRequest_lt hrequest
          simp [hs] at hlt
      rw [Device.serve]
      rcases hrequest : readRequest s with ⟨_ | req, t⟩
      · rfl
      · rw [hrequest] at hnone
        cases hnone
  | cons op ops ih =>
      rw [List.forall_mem_cons] at h
      rw [List.flatMap_cons] at hs
      obtain ⟨t, hrequest, ht⟩ := readRequest_bytes h.1 hs
      rw [Device.serve, hrequest]
      simp only [ih h.2 _ ht, answer_snd]
      rfl

theorem session_went {ops : List Op} (h : ∀ op ∈ ops, op.Fits) (d : σ) {s : Service}
    (hs : s.Awaits (D.answers d ops)) :
    ∃ s', session ops s = ((D.meanings d ops).1, s') ∧ Went s (ops.flatMap Op.bytes) [] s' := by
  induction ops generalizing d s with
  | nil => exact ⟨s, rfl, hs, by simp⟩
  | cons op ops ih =>
      rw [List.forall_mem_cons] at h
      obtain ⟨t, hperform, hwent⟩ := perform_went D h.1 d hs
      obtain ⟨s', hsession, hrest⟩ := ih h.2 (D.meaning d op).2 hwent.toAwaits
      refine ⟨s', ?_, hrest.toAwaits, ?_⟩
      · rw [session, hperform]
        simp only [hsession]
        rfl
      · rw [hrest.written, hwent.written, List.flatMap_cons, List.append_assoc]

theorem contents_segments (segments : List (List UInt8)) :
    ({ segments } : Stream).contents = segments.flatten := rfl

end Sessions

end OpenHtf.Filesync
