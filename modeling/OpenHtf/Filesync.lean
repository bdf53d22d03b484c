import OpenHtf.AdbMessage
import OpenHtf.ReadBuffer

/-!
# Filesync messages

`AbstractFilesyncTransport` of `plugs.usb.filesync_service`: `write_message`,
`read_message` and `read_until_done` over an ADB stream, whose data arrives in
the segments that the messages of the stream carry.
-/

set_option autoImplicit false

namespace OpenHtf.Filesync

open LittleEndian Adb

inductive Command where
  | STAT
  | LIST
  | SEND
  | RECV
  | DENT
  | DONE
  | DATA
  | OKAY
  | FAIL
  deriving DecidableEq

namespace Command

def name : Command → String
  | STAT => "STAT"
  | LIST => "LIST"
  | SEND => "SEND"
  | RECV => "RECV"
  | DENT => "DENT"
  | DONE => "DONE"
  | DATA => "DATA"
  | OKAY => "OKAY"
  | FAIL => "FAIL"

def ids : List Command := [STAT, LIST, SEND, RECV, DENT, DONE, DATA, OKAY, FAIL]

theorem mem_ids (cmd : Command) : cmd ∈ ids := by
  cases cmd <;> decide

/-- `CMD_TO_WIRE` and `WIRE_TO_CMD`. -/
def wire : WireCommands Command :=
  makeWireCommands ids name mem_ids
    (by
      intro cmd cmd' h
      cases cmd <;> cases cmd' <;> first | rfl | (revert h; decide))
    (by
      intro cmd
      cases cmd <;> decide)

end Command

/-! ## Messages and their types -/

/-- A value in a message, as Python has it: a number or a string. -/
inductive Field where
  | int (n : ℕ)
  | str (data : List UInt8)
  deriving DecidableEq

structure Message where
  command : Command
  fields : List Field
  deriving DecidableEq

/-- The attributes that `_make_message_type` is given after `command`. -/
structure MessageType where
  attributes : List String
  hasData : Bool := true

namespace MessageType

/-- The count of words in `struct_format`. -/
def structWords (ty : MessageType) : ℕ := ty.attributes.length + 1

def stat : MessageType := ⟨["mode", "size", "time"], false⟩
def dent : MessageType := { attributes := ["mode", "size", "time", "name"] }
def data : MessageType := { attributes := ["data"] }

end MessageType

structure FilesyncTransport where
  recvMsgType : MessageType
  validResponses : List Command

namespace FilesyncTransport

def stat : FilesyncTransport := ⟨.stat, [.STAT]⟩
def dent : FilesyncTransport := ⟨.dent, [.DENT, .DONE]⟩
def data : FilesyncTransport := ⟨.data, [.DATA, .DONE, .OKAY, .FAIL]⟩

end FilesyncTransport

/-! ## Writing -/

/-- What `struct.pack` can pack as a word. -/
def Field.toInt : Field → Option ℕ
  | int n => some n
  | str _ => none

/-- `struct.pack` of a message whose fields are all numbers by now. -/
def pack (ty : MessageType) (command : Command) (fields : List Field) : Option (List UInt8) := do
  let ints ← fields.mapM Field.toInt
  if ints.length = ty.attributes.length then packWords 4 (Command.wire.cmdToWire command :: ints)
  else none

/-- What `write_message` writes to the stream, write by write. -/
def writes (ty : MessageType) (msg : Message) : Option (List (List UInt8)) :=
  if ty.hasData then
    match msg.fields.getLast? with
    | some (.str data) =>
      (pack ty msg.command (msg.fields.dropLast ++ [.int data.length])).map fun header ↦ [header, data]
    | _ => none
  else (pack ty msg.command msg.fields).map fun header ↦ [header]

/-- The bytes of a list of messages, written one after the other. -/
def written (ty : MessageType) : List Message → Option (List UInt8)
  | [] => some []
  | msg :: msgs => do
    let first ← writes ty msg
    let rest ← written ty msgs
    some (first.flatten ++ rest)

/-! ## Reading -/

/-- An `AdbStream` as its reader sees it: what it has in its buffer, and the data
of the messages still to come. -/
structure Stream where
  buffer : ReadBuffer UInt8 := {}
  segments : List (List UInt8)

/-- The first is an `AdbStreamClosedError`, the last but one an `AdbRemoteError`,
and the others are `AdbProtocolError`s, with what their texts show. -/
inductive FilesyncError where
  | streamClosed
  | unexpectedFormat (rawData : List UInt8)
  | unrecognizedCommand (rawMessage : List ℕ)
  | notValidResponse (command : Command)
  | remoteFailure (msg : Message)
  | unexpectedCommand (expected : Command) (msg : Message)
  deriving DecidableEq

namespace Stream

def contents (s : Stream) : List UInt8 := s.buffer.contents ++ s.segments.flatten

/-- The loop of `AdbStreamTransport.read`: messages are read until the buffer is
long enough. -/
def fill (length : ℕ) (buffer : ReadBuffer UInt8) : List (List UInt8) → Option Stream
  | [] => if buffer.Ready length then some ⟨buffer, []⟩ else none
  | segment :: segments =>
    if buffer.Ready length then some ⟨buffer, segment :: segments⟩
    else fill length (buffer.append segment) segments

def read (length : ℕ) : Act Stream FilesyncError (List UInt8) := fun s ↦
  match fill length s.buffer s.segments with
  | none => (.error .streamClosed, ⟨s.segments.foldl ReadBuffer.append s.buffer, []⟩)
  | some s' => (.ok (s'.buffer.take length).1, { s' with buffer := (s'.buffer.take length).2 })

end Stream

/-- The data follows a message that announces some. -/
def readFields (ty : MessageType) (ints : List ℕ) : Act Stream FilesyncError (List Field) :=
  if ty.hasData ∧ ints.getLastD 0 ≠ 0 then do
    let data ← Stream.read (ints.getLastD 0)
    pure (ints.dropLast.map .int ++ [.str data])
  else pure (ints.map .int)

/-- The command of a message and the words after it. -/
def unpackMessage (ty : MessageType) (rawData : List UInt8) :
    Except FilesyncError (Command × List ℕ) :=
  match unpackWords 4 ty.structWords rawData with
  | some (wire :: ints) =>
    match Command.wire.wireToCmd wire with
    | some command => .ok (command, ints)
    | none => .error (.unrecognizedCommand (wire :: ints))
  | _ => .error (.unexpectedFormat rawData)

def readMessage (T : FilesyncTransport) : Act Stream FilesyncError Message := do
  let rawData ← Stream.read (4 * T.recvMsgType.structWords)
  let (command, ints) ← Act.ofExcept (unpackMessage T.recvMsgType rawData)
  let fields ← readFields T.recvMsgType ints
  if command ∉ T.validResponses then Act.raise (.notValidResponse command)
  else if command = .FAIL then Act.raise (.remoteFailure ⟨command, fields⟩)
  else pure ⟨command, fields⟩

def readMessages (T : FilesyncTransport) : ℕ → Act Stream FilesyncError (List Message)
  | 0 => pure []
  | n + 1 => do
    let msg ← readMessage T
    let msgs ← readMessages T n
    pure (msg :: msgs)

/-! ### A read of a stream -/

namespace Stream

variable {length : ℕ} {s : Stream}

theorem contents_fill {buffer : ReadBuffer UInt8} {segments : List (List UInt8)} {s' : Stream}
    (h : fill length buffer segments = some s') :
    s'.contents = buffer.contents ++ segments.flatten ∧ s'.buffer.Ready length := by
  induction segments generalizing buffer with
  | nil =>
      unfold fill at h
      split at h
      · obtain rfl := Option.some.inj h
        exact ⟨rfl, ‹_›⟩
      · cases h
  | cons segment segments ih =>
      unfold fill at h
      split at h
      · obtain rfl := Option.some.inj h
        exact ⟨rfl, ‹_›⟩
      · obtain ⟨hcontents, hready⟩ := ih h
        refine ⟨?_, hready⟩
        rw [hcontents, ReadBuffer.contents_append, List.flatten_cons, List.append_assoc]

theorem fill_isSome {buffer : ReadBuffer UInt8} {segments : List (List UInt8)} (h0 : length ≠ 0)
    (hlen : length ≤ (buffer.contents ++ segments.flatten).length) :
    ∃ s', fill length buffer segments = some s' := by
  induction segments generalizing buffer with
  | nil =>
      have hready : buffer.Ready length := (buffer.ready_iff h0).mpr (by simpa using hlen)
      exact ⟨_, if_pos hready⟩
  | cons segment segments ih =>
      unfold fill
      split
      · exact ⟨_, rfl⟩
      · apply ih
        rwa [ReadBuffer.contents_append, List.append_assoc, ← List.flatten_cons]

/-- A read of a length that is to come gets exactly that much, however it is cut
into segments. -/
theorem read_eq_ok (h0 : length ≠ 0) (hlen : length ≤ s.contents.length) :
    ∃ s', read length s = (.ok (s.contents.take length), s') ∧
      s'.contents = s.contents.drop length := by
  obtain ⟨s', hfill⟩ := fill_isSome h0 hlen
  obtain ⟨hcontents, hready⟩ := contents_fill hfill
  have hle : length ≤ s'.buffer.contents.length := (s'.buffer.ready_iff h0).mp hready
  have hsame : s'.contents = s.contents := hcontents
  refine ⟨{ s' with buffer := (s'.buffer.take length).2 }, ?_, ?_⟩
  · rw [← hsame, contents, List.take_append_of_le_length hle, ← ReadBuffer.take_fst _ h0]
    simp only [read, hfill]
  · rw [← hsame, contents, contents, List.drop_append_of_le_length hle,
      ReadBuffer.contents_take_snd _ h0]

/-- The same, with what is read and what follows it apart. -/
theorem read_append {data rest : List UInt8} (hs : s.contents = data ++ rest) (h0 : data ≠ []) :
    ∃ s', read data.length s = (.ok data, s') ∧ s'.contents = rest := by
  have hlen : data.length ≠ 0 := by simpa using h0
  obtain ⟨s', hread, hcontents⟩ := read_eq_ok (s := s) hlen (by simp [hs])
  rw [hs] at hread hcontents
  exact ⟨s', by simpa using hread, by simpa using hcontents⟩

/-- What a read returns was in front, and is not empty. -/
theorem read_ok {data : List UInt8} {s' : Stream} (h : read length s = (.ok data, s')) :
    data ++ s'.contents = s.contents ∧ data ≠ [] := by
  unfold read at h
  cases hfill : fill length s.buffer s.segments with
  | none => simp [hfill] at h
  | some filled =>
      obtain ⟨hcontents, hready⟩ := contents_fill hfill
      simp only [hfill, Prod.mk.injEq, Except.ok.injEq] at h
      obtain ⟨rfl, rfl⟩ := h
      refine ⟨?_, fun hnil ↦ hready.1 ?_⟩
      · rw [contents, ← List.append_assoc, ReadBuffer.take_append_contents]
        exact hcontents
      · rw [ReadBuffer.size_eq_length]
        rcases Nat.eq_zero_or_pos length with rfl | hpos
        · simpa [ReadBuffer.take] using hnil
        · have hle := (filled.buffer.ready_iff hpos.ne').mp hready
          rw [ReadBuffer.take_fst _ hpos.ne', List.take_eq_nil_iff] at hnil
          rcases hnil with hzero | hempty
          · omega
          · rw [hempty, List.length_nil]

end Stream

theorem readFields_le {ty : MessageType} {ints : List ℕ} {fields : List Field} {s s' : Stream}
    (h : readFields ty ints s = (.ok fields, s')) : s'.contents.length ≤ s.contents.length := by
  unfold readFields at h
  split at h
  · obtain ⟨data, t, hread, h⟩ := Act.bind_eq_ok_iff.mp h
    obtain ⟨-, rfl⟩ := Prod.mk.inj h
    rw [← (Stream.read_ok hread).1, List.length_append]
    omega
  · obtain ⟨-, rfl⟩ := Prod.mk.inj h
    exact le_rfl

theorem readMessage_eq_ok_iff {T : FilesyncTransport} {msg : Message} {s s' : Stream} :
    readMessage T s = (.ok msg, s') ↔
      ∃ rawData t ints, Stream.read (4 * T.recvMsgType.structWords) s = (.ok rawData, t) ∧
        unpackMessage T.recvMsgType rawData = .ok (msg.command, ints) ∧
        readFields T.recvMsgType ints t = (.ok msg.fields, s') ∧
        msg.command ∈ T.validResponses ∧ msg.command ≠ .FAIL := by
  constructor
  · intro h
    obtain ⟨rawData, t, hread, h⟩ := Act.bind_eq_ok_iff.mp h
    obtain ⟨⟨command, ints⟩, t, hheader, h⟩ := Act.bind_eq_ok_iff.mp h
    obtain ⟨hunpack, rfl⟩ := Prod.mk.inj hheader
    obtain ⟨fields, t, hfields, h⟩ := Act.bind_eq_ok_iff.mp h
    split at h
    · cases h
    split at h
    · cases h
    · obtain ⟨hmsg, rfl⟩ := Prod.mk.inj h
      obtain rfl := Except.ok.inj hmsg
      exact ⟨rawData, _, ints, hread, hunpack, hfields, not_not.mp ‹_›, ‹_›⟩
  · rintro ⟨rawData, t, ints, hread, hunpack, hfields, hvalid, hfail⟩
    refine Act.bind_eq_ok_iff.mpr ⟨rawData, t, hread, ?_⟩
    refine Act.bind_eq_ok_iff.mpr ⟨_, t, Prod.ext hunpack rfl, ?_⟩
    refine Act.bind_eq_ok_iff.mpr ⟨msg.fields, s', hfields, ?_⟩
    rw [if_neg (not_not.mpr hvalid), if_neg hfail]
    rfl

/-- A message takes something from the stream. -/
theorem readMessage_lt {T : FilesyncTransport} {msg : Message} {s s' : Stream}
    (h : readMessage T s = (.ok msg, s')) : s'.contents.length < s.contents.length := by
  obtain ⟨rawData, t, ints, hread, -, hfields, -⟩ := readMessage_eq_ok_iff.mp h
  obtain ⟨hcontents, hne⟩ := Stream.read_ok hread
  have hpos : 0 < rawData.length := List.length_pos_iff.mpr hne
  have hle := readFields_le hfields
  rw [← hcontents, List.length_append]
  omega

/-- `read_until_done`: the messages that it yields, and how it ends. -/
def readUntilDone (T : FilesyncTransport) (command : Command) (s : Stream) :
    List Message × Except FilesyncError Unit × Stream :=
  match _h : readMessage T s with
  | (.error e, s') => ([], .error e, s')
  | (.ok msg, s') =>
    if msg.command = .DONE then ([], .ok (), s')
    else if msg.command ≠ command then ([], .error (.unexpectedCommand command msg), s')
    else
      let (msgs, r) := readUntilDone T command s'
      (msg :: msgs, r)
termination_by s.contents.length
decreasing_by exact readMessage_lt ‹_›

/-! ## Reading what was written -/

/-- A message of a type: 32-bit numbers, and a string at the end if the type has
data. -/
inductive OfType (ty : MessageType) : Message → Prop
  | plain {command : Command} {ints : List ℕ} (hdata : ty.hasData = false)
      (hlen : ints.length = ty.attributes.length) (hlt : ∀ n ∈ ints, n < 2 ^ 32) :
      OfType ty ⟨command, ints.map .int⟩
  | withData {command : Command} {ints : List ℕ} {data : List UInt8} (hdata : ty.hasData = true)
      (hlen : ints.length + 1 = ty.attributes.length) (hlt : ∀ n ∈ ints, n < 2 ^ 32) :
      OfType ty ⟨command, ints.map .int ++ [.str data]⟩

/-- The length of its data fits into a word. -/
def Fits (msg : Message) : Prop := ∀ data, .str data ∈ msg.fields → data.length < 2 ^ 32

/-- Its data is not empty. -/
def HasPayload (msg : Message) : Prop := ∀ data, .str data ∈ msg.fields → data ≠ []

/-- What the reader makes of a field: an empty string stays the length it was
announced with. -/
def Field.received : Field → Field
  | str [] => int 0
  | field => field

def Message.received (msg : Message) : Message := { msg with fields := msg.fields.map Field.received }

section RoundTrip

variable {ty : MessageType} {T : FilesyncTransport} {msg : Message}

theorem received_eq_self_iff : msg.received = msg ↔ HasPayload msg := by
  obtain ⟨command, fields⟩ := msg
  have hfield : ∀ field : Field, field.received = field ↔ field ≠ .str [] := by
    intro field
    rcases field with n | _ | ⟨b, data⟩ <;> simp [Field.received]
  have hmap : fields.map Field.received = fields ↔ ∀ field ∈ fields, field ≠ .str [] := by
    simpa [hfield] using List.map_inj_left (l := fields) (f := Field.received) (g := id)
  rw [Message.received, Message.mk.injEq, and_iff_right rfl, hmap]
  constructor
  · rintro h data hmem rfl
    exact h _ hmem rfl
  · rintro h field hmem rfl
    exact h [] hmem rfl

theorem mapM_toInt (ints : List ℕ) : (ints.map Field.int).mapM Field.toInt = some ints := by
  induction ints with
  | nil => rfl
  | cons n ints ih => simp [List.mapM_cons, ih, Field.toInt]

theorem pack_ints (command : Command) {ints : List ℕ} (hlen : ints.length = ty.attributes.length) :
    pack ty command (ints.map .int) = packWords 4 (Command.wire.cmdToWire command :: ints) := by
  rw [pack, mapM_toInt, Option.bind_eq_bind, Option.bind_some, if_pos hlen]

theorem writes_plain {command : Command} {ints : List ℕ} (hdata : ty.hasData = false)
    (hlen : ints.length = ty.attributes.length) :
    writes ty ⟨command, ints.map .int⟩ =
      (packWords 4 (Command.wire.cmdToWire command :: ints)).map fun header ↦ [header] := by
  simp [writes, hdata, pack_ints command hlen]

theorem writes_withData {command : Command} {ints : List ℕ} {data : List UInt8}
    (hdata : ty.hasData = true) (hlen : ints.length + 1 = ty.attributes.length) :
    writes ty ⟨command, ints.map .int ++ [.str data]⟩ =
      (packWords 4 (Command.wire.cmdToWire command :: (ints ++ [data.length]))).map
        fun header ↦ [header, data] := by
  have hlen' : (ints ++ [data.length]).length = ty.attributes.length := by simpa using hlen
  have hpack := pack_ints command hlen'
  rw [List.map_append, List.map_singleton] at hpack
  simp [writes, hdata, hpack]

theorem isSome_packWords_iff (command : Command) (ints : List ℕ) :
    (packWords 4 (Command.wire.cmdToWire command :: ints)).isSome ↔ ∀ n ∈ ints, n < 2 ^ 32 := by
  have hwire := Command.wire.cmdToWire_lt command
  rw [LittleEndian.packWords_isSome_iff, List.forall_mem_cons]
  exact and_iff_right hwire

/-- A message can be written if and only if the length of its data fits. -/
theorem writes_isSome_iff (h : OfType ty msg) : (writes ty msg).isSome ↔ Fits msg := by
  cases h with
  | plain hdata hlen hlt =>
      rw [writes_plain hdata hlen, Option.isSome_map, isSome_packWords_iff]
      exact ⟨fun _ data hmem ↦ by simp at hmem, fun _ ↦ hlt⟩
  | withData hdata hlen hlt =>
      rw [writes_withData hdata hlen, Option.isSome_map, isSome_packWords_iff]
      constructor
      · intro hall data hmem
        obtain rfl : data = _ := by simpa using hmem
        exact hall _ (by simp)
      · intro hfits n hn
        rcases List.mem_append.mp hn with hn | hn
        · exact hlt n hn
        · obtain rfl := List.mem_singleton.mp hn
          exact hfits _ (by simp)

theorem unpackMessage_of_packWords {command : Command} {ints : List ℕ} {header : List UInt8}
    (hlen : ints.length = ty.attributes.length)
    (h : packWords 4 (Command.wire.cmdToWire command :: ints) = some header) :
    unpackMessage ty header = .ok (command, ints) := by
  have hwords : unpackWords 4 ty.structWords header = some (Command.wire.cmdToWire command :: ints) :=
    unpackWords_eq_some_iff.mpr ⟨by simp [MessageType.structWords, hlen], h⟩
  have hcmd := (Command.wire.wireToCmd_eq_some_iff _ command).mpr rfl
  simp [unpackMessage, hwords, hcmd]

theorem header_length {command : Command} {ints : List ℕ} {header : List UInt8}
    (hlen : ints.length = ty.attributes.length)
    (h : packWords 4 (Command.wire.cmdToWire command :: ints) = some header) :
    header.length = 4 * ty.structWords := by
  have hwords := unpackWords_eq_some_iff.mpr ⟨rfl, h⟩
  rw [length_of_unpackWords hwords, List.length_cons, hlen, MessageType.structWords]

/-- What the reader of a transport may get: a valid response other than FAIL. -/
structure Response (T : FilesyncTransport) (msg : Message) : Prop where
  ofType : OfType T.recvMsgType msg
  valid : msg.command ∈ T.validResponses
  notFail : msg.command ≠ .FAIL

/-- The header is read and checked; what is left are the fields. -/
theorem readMessage_of_header {command : Command} {ints : List ℕ} {fields : List Field}
    {header rest : List UInt8} {s : Stream} (hlen : ints.length = T.recvMsgType.attributes.length)
    (hheader : packWords 4 (Command.wire.cmdToWire command :: ints) = some header)
    (hvalid : command ∈ T.validResponses) (hfail : command ≠ .FAIL) {after : List UInt8}
    (hs : s.contents = header ++ after)
    (hfields : ∀ t : Stream, t.contents = after →
      ∃ s', readFields T.recvMsgType ints t = (.ok fields, s') ∧ s'.contents = rest) :
    ∃ s', readMessage T s = (.ok ⟨command, fields⟩, s') ∧ s'.contents = rest := by
  have hlength := header_length hlen hheader
  have hne : header ≠ [] := by
    rw [← List.length_pos_iff, hlength, MessageType.structWords]
    omega
  obtain ⟨t, hread, ht⟩ := Stream.read_append hs hne
  rw [hlength] at hread
  obtain ⟨s', hs', hrest⟩ := hfields t ht
  have hunpack := unpackMessage_of_packWords hlen hheader
  exact ⟨s', readMessage_eq_ok_iff.mpr ⟨header, t, ints, hread, hunpack, hs', hvalid, hfail⟩, hrest⟩

theorem readFields_withData {ints : List ℕ} {data rest : List UInt8} {t : Stream}
    (hdata : ty.hasData = true) (ht : t.contents = data ++ rest) :
    ∃ s', readFields ty (ints ++ [data.length]) t =
      (.ok ((ints.map Field.int ++ [Field.str data]).map Field.received), s') ∧ s'.contents = rest := by
  have hints : (ints.map Field.int).map Field.received = ints.map Field.int := by
    simp [Field.received]
  rw [List.map_append, hints, List.map_singleton]
  cases data with
  | nil => exact ⟨t, by simp [readFields, Field.received], by simpa using ht⟩
  | cons b data =>
      obtain ⟨s', hread, hs'⟩ := Stream.read_append ht (List.cons_ne_nil b data)
      refine ⟨s', ?_, hs'⟩
      rw [readFields, List.getLastD_concat, if_pos ⟨hdata, by simp⟩]
      refine Act.bind_eq_ok_iff.mpr ⟨b :: data, s', hread, ?_⟩
      rw [List.dropLast_concat]
      rfl

/-- A written message is received, however it is cut into segments. -/
theorem readMessage_written {writes' : List (List UInt8)} {rest : List UInt8} {s : Stream}
    (h : Response T msg) (hw : writes T.recvMsgType msg = some writes')
    (hs : s.contents = writes'.flatten ++ rest) :
    ∃ s', readMessage T s = (.ok msg.received, s') ∧ s'.contents = rest := by
  obtain ⟨htype, hvalid, hfail⟩ := h
  cases htype with
  | plain hdata hlen hlt =>
      rw [writes_plain hdata hlen, Option.map_eq_some_iff] at hw
      obtain ⟨header, hheader, rfl⟩ := hw
      rw [List.flatten_singleton] at hs
      refine readMessage_of_header hlen hheader hvalid hfail hs fun t ht ↦ ⟨t, ?_, ht⟩
      simp [readFields, hdata, Field.received]
  | withData hdata hlen hlt =>
      rename_i command ints data
      rw [writes_withData hdata hlen, Option.map_eq_some_iff] at hw
      obtain ⟨header, hheader, rfl⟩ := hw
      have hlen' : (ints ++ [data.length]).length = T.recvMsgType.attributes.length := by
        simpa using hlen
      have hs' : s.contents = header ++ (data ++ rest) := by simpa using hs
      exact readMessage_of_header hlen' hheader hvalid hfail hs' fun t ht ↦
        readFields_withData hdata ht

/-! ### Many messages -/

theorem written_cons_eq_some_iff {msgs : List Message} {bytes : List UInt8} :
    written ty (msg :: msgs) = some bytes ↔
      ∃ first rest, writes ty msg = some first ∧ written ty msgs = some rest ∧
        first.flatten ++ rest = bytes := by
  simp [written, Option.bind_eq_some_iff]

theorem written_isSome_iff {msgs : List Message} (h : ∀ msg ∈ msgs, OfType ty msg) :
    (∃ bytes, written ty msgs = some bytes) ↔ ∀ msg ∈ msgs, Fits msg := by
  induction msgs with
  | nil => exact ⟨fun _ _ hmem ↦ (List.not_mem_nil hmem).elim, fun _ ↦ ⟨[], rfl⟩⟩
  | cons msg msgs ih =>
      rw [List.forall_mem_cons] at h
      rw [List.forall_mem_cons, ← ih h.2, ← writes_isSome_iff h.1, Option.isSome_iff_exists]
      constructor
      · rintro ⟨bytes, hbytes⟩
        obtain ⟨first, rest, hfirst, hrest, -⟩ := written_cons_eq_some_iff.mp hbytes
        exact ⟨⟨first, hfirst⟩, rest, hrest⟩
      · rintro ⟨⟨first, hfirst⟩, rest, hrest⟩
        exact ⟨_, written_cons_eq_some_iff.mpr ⟨first, rest, hfirst, hrest, rfl⟩⟩

theorem readMessages_written {msgs : List Message} {bytes : List UInt8} {s : Stream}
    (h : ∀ msg ∈ msgs, Response T msg) (hw : written T.recvMsgType msgs = some bytes)
    (hs : s.contents = bytes) :
    ∃ s', readMessages T msgs.length s = (.ok (msgs.map Message.received), s') ∧
      s'.contents = [] := by
  induction msgs generalizing bytes s with
  | nil =>
      obtain rfl := Option.some.inj hw
      exact ⟨s, rfl, hs⟩
  | cons msg msgs ih =>
      rw [List.forall_mem_cons] at h
      obtain ⟨first, rest, hfirst, hrest, rfl⟩ := written_cons_eq_some_iff.mp hw
      obtain ⟨t, hread, ht⟩ := readMessage_written h.1 hfirst hs
      obtain ⟨s', hmsgs, hs'⟩ := ih h.2 hrest ht
      refine ⟨s', Act.bind_eq_ok_iff.mpr ⟨_, t, hread, ?_⟩, hs'⟩
      exact Act.bind_eq_ok_iff.mpr ⟨_, s', hmsgs, rfl⟩

theorem readUntilDone_written {command : Command} {msgs after : List Message} {done : Message}
    {bytes : List UInt8} {s : Stream} (h : ∀ msg ∈ msgs ++ done :: after, Response T msg)
    (hcommand : ∀ msg ∈ msgs, msg.command = command) (hne : command ≠ .DONE)
    (hdone : done.command = .DONE)
    (hw : written T.recvMsgType (msgs ++ done :: after) = some bytes) (hs : s.contents = bytes) :
    ∃ s', readUntilDone T command s = (msgs.map Message.received, .ok (), s') := by
  induction msgs generalizing bytes s with
  | nil =>
      rw [List.nil_append] at hw
      obtain ⟨first, rest, hfirst, hrest, rfl⟩ := written_cons_eq_some_iff.mp hw
      obtain ⟨s', hread, hs'⟩ := readMessage_written (h done (by simp)) hfirst hs
      refine ⟨s', ?_⟩
      rw [readUntilDone, hread]
      simp [Message.received, hdone]
  | cons msg msgs ih =>
      rw [List.cons_append] at hw
      rw [List.cons_append, List.forall_mem_cons] at h
      rw [List.forall_mem_cons] at hcommand
      obtain ⟨first, rest, hfirst, hrest, rfl⟩ := written_cons_eq_some_iff.mp hw
      obtain ⟨t, hread, ht⟩ := readMessage_written h.1 hfirst hs
      obtain ⟨s', hmsgs⟩ := ih h.2 hcommand.2 hrest ht
      refine ⟨s', ?_⟩
      rw [readUntilDone, hread]
      simp [Message.received, hcommand.1, hne, hmsgs]

/-! ### Round trips -/

/-- Reading the written messages back gives the same messages, for every way to
cut the bytes into segments. -/
def RoundTrips (T : FilesyncTransport) (msgs : List Message) : Prop :=
  ∃ bytes, written T.recvMsgType msgs = some bytes ∧
    ∀ segments : List (List UInt8), (∀ segment ∈ segments, segment ≠ []) → segments.flatten = bytes →
      ∃ s', readMessages T msgs.length { segments } = (.ok msgs, s') ∧ s'.contents = []

/-- `read_until_done` yields the messages before the one that says DONE. -/
def YieldsUntilDone (T : FilesyncTransport) (command : Command) (msgs : List Message)
    (done : Message) (after : List Message) : Prop :=
  ∃ bytes, written T.recvMsgType (msgs ++ done :: after) = some bytes ∧
    ∀ segments : List (List UInt8), (∀ segment ∈ segments, segment ≠ []) → segments.flatten = bytes →
      ∃ s', readUntilDone T command { segments } = (msgs, .ok (), s')

theorem map_received_eq_self_iff {msgs : List Message} :
    msgs.map Message.received = msgs ↔ ∀ msg ∈ msgs, HasPayload msg := by
  have h := List.map_inj_left (l := msgs) (f := Message.received) (g := id)
  simpa [received_eq_self_iff] using h

/-- Every sequence of bytes can be cut into segments. -/
theorem exists_segments (bytes : List UInt8) :
    ∃ segments : List (List UInt8), (∀ segment ∈ segments, segment ≠ []) ∧
      segments.flatten = bytes := by
  refine ⟨bytes.map fun b ↦ [b], by simp, ?_⟩
  induction bytes with
  | nil => rfl
  | cons b bytes ih => simpa using ih

theorem roundTrips_iff {msgs : List Message} (h : ∀ msg ∈ msgs, Response T msg) :
    RoundTrips T msgs ↔ ∀ msg ∈ msgs, Fits msg ∧ HasPayload msg := by
  rw [forall₂_and, ← map_received_eq_self_iff, ← written_isSome_iff fun msg hmem ↦ (h msg hmem).ofType]
  constructor
  · rintro ⟨bytes, hw, hread⟩
    obtain ⟨segments, hne, hflatten⟩ := exists_segments bytes
    obtain ⟨s', hmsgs, -⟩ := hread segments hne hflatten
    obtain ⟨s'', hmsgs', -⟩ := readMessages_written (s := { segments }) h hw
      (by simpa [Stream.contents] using hflatten)
    rw [hmsgs] at hmsgs'
    exact ⟨⟨bytes, hw⟩, (Except.ok.inj (Prod.mk.inj hmsgs').1).symm⟩
  · rintro ⟨⟨bytes, hw⟩, hsame⟩
    refine ⟨bytes, hw, fun segments _ hflatten ↦ ?_⟩
    obtain ⟨s', hmsgs, hrest⟩ := readMessages_written (s := { segments }) h hw
      (by simpa [Stream.contents] using hflatten)
    exact ⟨s', by rw [hmsgs, hsame], hrest⟩

theorem yieldsUntilDone_iff {command : Command} {msgs after : List Message} {done : Message}
    (h : ∀ msg ∈ msgs ++ done :: after, Response T msg)
    (hcommand : ∀ msg ∈ msgs, msg.command = command) (hne : command ≠ .DONE)
    (hdone : done.command = .DONE) :
    YieldsUntilDone T command msgs done after ↔
      (∀ msg ∈ msgs ++ done :: after, Fits msg) ∧ ∀ msg ∈ msgs, HasPayload msg := by
  rw [← map_received_eq_self_iff, ← written_isSome_iff fun msg hmem ↦ (h msg hmem).ofType]
  constructor
  · rintro ⟨bytes, hw, hread⟩
    obtain ⟨segments, hne', hflatten⟩ := exists_segments bytes
    obtain ⟨s', hmsgs⟩ := hread segments hne' hflatten
    obtain ⟨s'', hmsgs'⟩ := readUntilDone_written (s := { segments }) h hcommand hne hdone hw
      (by simpa [Stream.contents] using hflatten)
    rw [hmsgs] at hmsgs'
    exact ⟨⟨bytes, hw⟩, (Prod.mk.inj hmsgs').1.symm⟩
  · rintro ⟨⟨bytes, hw⟩, hsame⟩
    refine ⟨bytes, hw, fun segments _ hflatten ↦ ?_⟩
    obtain ⟨s', hmsgs⟩ := readUntilDone_written (s := { segments }) h hcommand hne hdone hw
      (by simpa [Stream.contents] using hflatten)
    exact ⟨s', by rw [hmsgs, hsame]⟩

/-- Filesync messages are read back, and yielded up to the one that says DONE, if
and only if the data of each is not empty and its length fits into a word.  The
data of the message that says DONE, which is not yielded, may be empty. -/
theorem filesync_roundTrips_iff (T : FilesyncTransport) :
    (∀ msgs, (∀ msg ∈ msgs, Response T msg) →
      (RoundTrips T msgs ↔ ∀ msg ∈ msgs, Fits msg ∧ HasPayload msg)) ∧
    ∀ command msgs done after, (∀ msg ∈ msgs ++ done :: after, Response T msg) →
      (∀ msg ∈ msgs, msg.command = command) → command ≠ .DONE → done.command = .DONE →
      (YieldsUntilDone T command msgs done after ↔
        (∀ msg ∈ msgs ++ done :: after, Fits msg) ∧ ∀ msg ∈ msgs, HasPayload msg) :=
  ⟨fun _ h ↦ roundTrips_iff h, fun _ _ _ _ h hcommand hne hdone ↦
    yieldsUntilDone_iff h hcommand hne hdone⟩

end RoundTrip

/-! ## The defect -/

/-- A DATA message with these bytes. -/
def dataMessage (data : List UInt8) : Message := ⟨.DATA, [.str data]⟩

theorem response_dataMessage (data : List UInt8) : Response .data (dataMessage data) where
  ofType := @OfType.withData .data .DATA [] data rfl rfl nofun
  valid := List.mem_cons_self
  notFail := nofun

theorem filesync_roundTrips_iff_data : RoundTrips .data [dataMessage [104, 105]] := by
  refine ((filesync_roundTrips_iff .data).1 [dataMessage [104, 105]] ?_).mpr ?_
  · rw [List.forall_mem_singleton]
    exact response_dataMessage _
  · rw [List.forall_mem_singleton]
    refine ⟨fun data hdata ↦ ?_, fun data hdata ↦ ?_⟩
    · obtain rfl : data = [104, 105] := by simpa [dataMessage] using hdata
      decide
    · obtain rfl : data = [104, 105] := by simpa [dataMessage] using hdata
      decide

/-- A DATA message without data comes back with the number 0 in its place. -/
theorem not_roundTrips_empty : Response .data (dataMessage []) ∧ ¬RoundTrips .data [dataMessage []] := by
  refine ⟨response_dataMessage [], ?_⟩
  rintro ⟨bytes, hw, hread⟩
  obtain rfl := Option.some.inj hw
  obtain ⟨s', hmsgs, -⟩ := hread [[68, 65, 84, 65, 0, 0, 0, 0]] (by decide) rfl
  have hfirst := (Prod.mk.inj hmsgs).1
  revert hfirst
  decide

end OpenHtf.Filesync
