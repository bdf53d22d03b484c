import OpenHtf.Lib.Action
import OpenHtf.Lib.LittleEndian

/-!
# ADB messages on the wire

`plugs.usb.adb_message`: an `AdbMessage`, its header of six little-endian words,
and `AdbTransportAdapter.write_message` and `read_message` over any transport.
Payloads are Latin-1 strings, that is, lists of bytes.
-/

set_option autoImplicit false

namespace OpenHtf.Adb

open LittleEndian

/-! ## Command words -/

/-- The two dicts of `make_wire_commands`, which are inverse to each other. -/
structure WireCommands (γ : Type) where
  cmdToWire : γ → ℕ
  wireToCmd : ℕ → Option γ
  wireToCmd_eq_some_iff : ∀ wire cmd, wireToCmd wire = some cmd ↔ cmdToWire cmd = wire
  cmdToWire_lt : ∀ cmd, cmdToWire cmd < 2 ^ 32

/-- The word of a command: its characters, the first one lowest. -/
def wireWord (cmd : String) : ℕ := (cmd.toList.zipIdx.map fun c ↦ c.1.toNat <<< (c.2 * 8)).sum

/-- `make_wire_commands` for ids whose words fit and differ. -/
def makeWireCommands {γ : Type} (ids : List γ) (name : γ → String) (hall : ∀ cmd, cmd ∈ ids)
    (hinj : ∀ cmd cmd', wireWord (name cmd) = wireWord (name cmd') → cmd = cmd')
    (hlt : ∀ cmd, wireWord (name cmd) < 2 ^ 32) : WireCommands γ where
  cmdToWire cmd := wireWord (name cmd)
  wireToCmd wire := ids.find? fun cmd ↦ wireWord (name cmd) == wire
  wireToCmd_eq_some_iff wire cmd := by
    constructor
    · intro h
      simpa using List.find?_some h
    · rintro rfl
      cases h : ids.find? fun cmd' ↦ wireWord (name cmd') == wireWord (name cmd) with
      | none =>
          have hne := List.find?_eq_none.mp h cmd (hall cmd)
          simp at hne
      | some cmd' =>
          have heq : wireWord (name cmd') = wireWord (name cmd) := by simpa using List.find?_some h
          rw [hinj cmd' cmd heq]
  cmdToWire_lt := hlt

inductive Command where
  | SYNC
  | CNXN
  | AUTH
  | OPEN
  | OKAY
  | CLSE
  | WRTE
  deriving DecidableEq

namespace Command

def name : Command → String
  | SYNC => "SYNC"
  | CNXN => "CNXN"
  | AUTH => "AUTH"
  | OPEN => "OPEN"
  | OKAY => "OKAY"
  | CLSE => "CLSE"
  | WRTE => "WRTE"

def ids : List Command := [SYNC, CNXN, AUTH, OPEN, OKAY, CLSE, WRTE]

theorem mem_ids (cmd : Command) : cmd ∈ ids := by
  cases cmd <;> decide

/-- `AdbMessage.CMD_TO_WIRE` and `AdbMessage.WIRE_TO_CMD`. -/
def wire : WireCommands Command :=
  makeWireCommands ids name mem_ids
    (by
      intro cmd cmd' h
      cases cmd <;> cases cmd' <;> first | rfl | (revert h; decide))
    (by
      intro cmd
      cases cmd <;> decide)

end Command

/-! ## Messages -/

structure AdbMessage where
  command : Command
  arg0 : ℕ := 0
  arg1 : ℕ := 0
  data : List UInt8 := []
  deriving DecidableEq

/-- The sum of all the data bytes. -/
def dataCrc32 (data : List UInt8) : ℕ := (data.map UInt8.toNat).sum &&& 0xFFFFFFFF

namespace AdbMessage

def magic (m : AdbMessage) : ℕ := Command.wire.cmdToWire m.command ^^^ 0xFFFFFFFF

/-- The words of `HEADER_STRUCT_FORMAT`, the last one given. -/
def wordsWith (m : AdbMessage) (magic : ℕ) : List ℕ :=
  [Command.wire.cmdToWire m.command, m.arg0, m.arg1, m.data.length, dataCrc32 m.data, magic]

/-- The header, unless `struct.pack` raises. -/
def header (m : AdbMessage) : Option (List UInt8) := packWords 4 (m.wordsWith m.magic)

end AdbMessage

structure RawAdbMessage where
  cmd : ℕ
  arg0 : ℕ
  arg1 : ℕ
  dataLength : ℕ
  dataChecksum : ℕ
  magic : ℕ
  deriving DecidableEq

/-- The first is `struct.error`, the next three are `AdbProtocolError`s and the
fourth is `AdbDataIntegrityError`, with what their texts show; the last stands
for the errors of the transport below. -/
inductive MessageError where
  | doesNotFit
  | connectionLost
  | unableToUnpack (rawHeader : List UInt8)
  | unrecognizedCommand
  | invalidData (message : AdbMessage) (raw : RawAdbMessage)
  | transport
  deriving DecidableEq

namespace RawAdbMessage

def words (raw : RawAdbMessage) : List ℕ :=
  [raw.cmd, raw.arg0, raw.arg1, raw.dataLength, raw.dataChecksum, raw.magic]

/-- `struct.unpack` of a header. -/
def unpack (rawHeader : List UInt8) : Option RawAdbMessage :=
  match unpackWords 4 6 rawHeader with
  | some [cmd, arg0, arg1, dataLength, dataChecksum, magic] =>
    some ⟨cmd, arg0, arg1, dataLength, dataChecksum, magic⟩
  | _ => none

end RawAdbMessage

/-- `to_adb_message`. -/
def RawAdbMessage.toAdbMessage (raw : RawAdbMessage) (data : List UInt8) :
    Except MessageError AdbMessage :=
  match Command.wire.wireToCmd raw.cmd with
  | none => .error .unrecognizedCommand
  | some command =>
    let message : AdbMessage := ⟨command, raw.arg0, raw.arg1, data⟩
    if data.length ≠ raw.dataLength ∨ dataCrc32 message.data ≠ raw.dataChecksum then
      .error (.invalidData message raw)
    else .ok message

/-! ## The transport adapter -/

/-- What lies below the adapter: usually a `UsbHandle`, but anything that reads
and writes. -/
structure Transport (τ : Type) where
  read : ℕ → Act τ MessageError (List UInt8)
  write : List UInt8 → Act τ MessageError Unit

section Adapter

variable {τ : Type} (T : Transport τ)

def writeMessage (message : AdbMessage) : Act τ MessageError Unit :=
  match message.header with
  | none => Act.raise .doesNotFit
  | some header => do
    T.write header
    T.write message.data

/-- The second read of `read_message`. -/
def readData (dataLength : ℕ) : Act τ MessageError (List UInt8) :=
  if dataLength > 0 then T.read dataLength else pure []

def readMessage : Act τ MessageError AdbMessage := do
  let rawHeader ← T.read 24
  if rawHeader = [] then Act.raise .connectionLost
  else
    match RawAdbMessage.unpack rawHeader with
    | some raw => do
      let data ← readData T raw.dataLength
      Act.ofExcept (raw.toAdbMessage data)
    | none => Act.raise (.unableToUnpack rawHeader)

end Adapter

/-! ## What the reader accepts -/

section Reader

variable {τ : Type} {T : Transport τ} {t t' : τ} {m : AdbMessage} {header data : List UInt8}

theorem toAdbMessage_eq_ok_iff {raw : RawAdbMessage} :
    raw.toAdbMessage data = .ok m ↔
      m.data = data ∧ m.arg0 = raw.arg0 ∧ m.arg1 = raw.arg1 ∧
        Command.wire.cmdToWire m.command = raw.cmd ∧ data.length = raw.dataLength ∧
        dataCrc32 data = raw.dataChecksum := by
  rw [← Command.wire.wireToCmd_eq_some_iff]
  unfold RawAdbMessage.toAdbMessage
  split
  · rename_i hcmd
    simp [hcmd]
  · rename_i command hcmd
    obtain ⟨command', arg0, arg1, data'⟩ := m
    simp only [hcmd]
    split
    · rename_i hbad
      refine ⟨nofun, fun h ↦ ?_⟩
      rcases hbad with hbad | hbad
      · exact absurd h.2.2.2.2.1 hbad
      · exact absurd h.2.2.2.2.2 hbad
    · rename_i hgood
      rw [not_or, not_not, not_not] at hgood
      constructor
      · intro h
        obtain ⟨rfl, rfl, rfl, rfl⟩ := AdbMessage.mk.inj (Except.ok.inj h)
        exact ⟨rfl, rfl, rfl, rfl, hgood⟩
      · rintro ⟨rfl, rfl, rfl, hcommand, -⟩
        rw [Option.some.inj hcommand]

/-- The word with this index, for a header of six. -/
def wordOf (i : ℕ) (header : List UInt8) : ℕ := decode ((header.drop (4 * i)).take 4)

/-- The reads of `read_message` get these two, the second one if the header
announces a payload. -/
def Delivers (T : Transport τ) (t : τ) (header data : List UInt8) (t' : τ) : Prop :=
  ∃ t₁, T.read 24 t = (.ok header, t₁) ∧ readData T (wordOf 3 header) t₁ = (.ok data, t')

theorem unpack_eq_some_iff {raw : RawAdbMessage} :
    RawAdbMessage.unpack header = some raw ↔ packWords 4 raw.words = some header := by
  have hlen : raw.words.length = 6 := rfl
  unfold RawAdbMessage.unpack
  split
  · rename_i cmd arg0 arg1 dataLength dataChecksum magic hwords
    constructor
    · rintro h
      obtain rfl := Option.some.inj h
      exact (unpackWords_eq_some_iff.mp hwords).2
    · intro h
      have hwords' := unpackWords_eq_some_iff.mpr ⟨hlen, h⟩
      rw [hwords, RawAdbMessage.words] at hwords'
      simp only [Option.some.injEq, List.cons.injEq, and_true] at hwords'
      obtain ⟨rfl, rfl, rfl, rfl, rfl, rfl⟩ := hwords'
      rfl
  · rename_i hother
    refine ⟨nofun, fun h ↦ ?_⟩
    exact absurd (unpackWords_eq_some_iff.mpr ⟨hlen, h⟩) (hother _ _ _ _ _ _)

theorem wordOf_unpack {raw : RawAdbMessage} (h : RawAdbMessage.unpack header = some raw) :
    wordOf 0 header = raw.cmd ∧ wordOf 3 header = raw.dataLength ∧ wordOf 5 header = raw.magic := by
  have hwords := unpackWords_eq_some_iff.mpr ⟨rfl, unpack_eq_some_iff.mp h⟩
  rw [unpackWords, if_pos (length_of_unpackWords hwords)] at hwords
  simp only [RawAdbMessage.words, List.length_cons, LittleEndian.words, Option.some.injEq,
    List.cons.injEq, List.drop_drop] at hwords
  exact ⟨hwords.1, hwords.2.2.2.1, hwords.2.2.2.2.2.1⟩

/-- The reader checks everything but the last word of the header. -/
theorem readMessage_eq_ok_iff :
    readMessage T t = (.ok m, t') ↔
      ∃ header magic, Delivers T t header m.data t' ∧ packWords 4 (m.wordsWith magic) = some header := by
  constructor
  · intro h
    obtain ⟨header, t₁, hread, h⟩ := Act.bind_eq_ok_iff.mp h
    split at h
    · cases h
    cases hraw : RawAdbMessage.unpack header with
    | none => simp [hraw] at h
    | some raw =>
        rw [hraw] at h
        obtain ⟨data, t₂, hdata, h⟩ := Act.bind_eq_ok_iff.mp h
        obtain ⟨haccept, rfl⟩ := Prod.mk.inj h
        have hpack := unpack_eq_some_iff.mp hraw
        rw [← (wordOf_unpack hraw).2.1] at hdata
        obtain ⟨rfl, harg0, harg1, hcmd, hlen, hcrc⟩ := toAdbMessage_eq_ok_iff.mp haccept
        refine ⟨header, raw.magic, ⟨t₁, hread, hdata⟩, ?_⟩
        rwa [AdbMessage.wordsWith, harg0, harg1, hcmd, hlen, hcrc]
  · rintro ⟨header, magic, ⟨t₁, hread, hdata⟩, hpack⟩
    let raw : RawAdbMessage :=
      ⟨Command.wire.cmdToWire m.command, m.arg0, m.arg1, m.data.length, dataCrc32 m.data, magic⟩
    have hraw : RawAdbMessage.unpack header = some raw := unpack_eq_some_iff.mpr hpack
    have haccept : raw.toAdbMessage m.data = .ok m :=
      toAdbMessage_eq_ok_iff.mpr ⟨rfl, rfl, rfl, rfl, rfl, rfl⟩
    have hne : header ≠ [] := by
      rintro rfl
      cases hraw
    rw [(wordOf_unpack hraw).2.1] at hdata
    refine Act.bind_eq_ok_iff.mpr ⟨header, t₁, hread, ?_⟩
    rw [if_neg hne, hraw]
    exact Act.bind_eq_ok_iff.mpr ⟨m.data, t', hdata, Prod.ext haccept rfl⟩

/-! ## Reading what was written -/

/-- The reader gets the message back from the header and the payload that
`write_message` sends. -/
def RoundTrips (T : Transport τ) (m : AdbMessage) : Prop :=
  ∃ header, m.header = some header ∧
    ∀ t t', Delivers T t header m.data t' → readMessage T t = (.ok m, t')

theorem header_isSome_iff (hcmd : m.arg0 < 2 ^ 32) (harg : m.arg1 < 2 ^ 32) :
    (∃ header, m.header = some header) ↔ m.data.length < 2 ^ 32 := by
  have hwire : Command.wire.cmdToWire m.command < 2 ^ 32 := Command.wire.cmdToWire_lt m.command
  have hcrc : dataCrc32 m.data < 2 ^ 32 := Nat.and_lt_two_pow _ (by norm_num)
  have hmagic : m.magic < 2 ^ 32 := Nat.xor_lt_two_pow hwire (by norm_num)
  have hwidth : 256 ^ 4 = 2 ^ 32 := by norm_num
  simp only [AdbMessage.header, packWords_eq_some_iff, AdbMessage.wordsWith, List.forall_mem_cons,
    hwidth]
  constructor
  · rintro ⟨header, hfit, -⟩
    exact hfit.2.2.2.1
  · intro hlen
    exact ⟨_, ⟨hwire, hcmd, harg, hlen, hcrc, hmagic, nofun⟩, rfl⟩

theorem roundTrips_iff (hcmd : m.arg0 < 2 ^ 32) (harg : m.arg1 < 2 ^ 32) :
    RoundTrips T m ↔ m.data.length < 2 ^ 32 := by
  rw [← header_isSome_iff hcmd harg]
  constructor
  · rintro ⟨header, hheader, -⟩
    exact ⟨header, hheader⟩
  · rintro ⟨header, hheader⟩
    exact ⟨header, hheader, fun t t' h ↦ readMessage_eq_ok_iff.mpr ⟨header, m.magic, h, hheader⟩⟩

/-- Of an accepted header only the magic word can differ. -/
theorem header_eq_iff {magic : ℕ} (hpack : packWords 4 (m.wordsWith magic) = some header) :
    m.header = some header ↔ wordOf 5 header = wordOf 0 header ^^^ 0xFFFFFFFF := by
  let raw : RawAdbMessage :=
    ⟨Command.wire.cmdToWire m.command, m.arg0, m.arg1, m.data.length, dataCrc32 m.data, magic⟩
  have hraw : RawAdbMessage.unpack header = some raw := unpack_eq_some_iff.mpr hpack
  obtain ⟨hcmd, -, hmagic⟩ := wordOf_unpack hraw
  rw [hcmd, hmagic]
  constructor
  · intro h
    have hwords := unpackWords_eq_some_iff.mpr ⟨rfl, h⟩
    have hwords' := unpackWords_eq_some_iff.mpr ⟨rfl, hpack⟩
    have heq := Option.some.inj (hwords'.symm.trans hwords)
    simp only [AdbMessage.wordsWith, List.cons.injEq, and_true] at heq
    exact heq.2.2.2.2.2
  · intro h
    rw [AdbMessage.header, AdbMessage.magic, ← h]
    exact hpack

/-- Framing is exact up to the magic word, which the reader does not check: a
message is read back unless its payload is too long for a header, and what is
accepted is what the writer sends if and only if the last word of the header is
the complement of the first. -/
theorem framing_exact_iff (T : Transport τ) :
    (∀ m : AdbMessage, m.arg0 < 2 ^ 32 → m.arg1 < 2 ^ 32 →
      (RoundTrips T m ↔ m.data.length < 2 ^ 32)) ∧
    ∀ t t' m, readMessage T t = (.ok m, t') →
      ∃ header, Delivers T t header m.data t' ∧
        (m.header = some header ↔ wordOf 5 header = wordOf 0 header ^^^ 0xFFFFFFFF) := by
  refine ⟨fun m hcmd harg ↦ roundTrips_iff hcmd harg, fun t t' m h ↦ ?_⟩
  obtain ⟨header, magic, hdelivers, hpack⟩ := readMessage_eq_ok_iff.mp h
  exact ⟨header, hdelivers, header_eq_iff hpack⟩

end Reader

/-! ## Bytes in transit -/

/-- A transport that hands on what is written, as far as it is there. -/
def pipe : Transport (List UInt8) where
  read n := fun bytes ↦ (.ok (bytes.take n), bytes.drop n)
  write data := Act.modify (· ++ data)

theorem delivers_pipe {m : AdbMessage} {header : List UInt8} (h : m.header = some header)
    (rest : List UInt8) : Delivers pipe (header ++ m.data ++ rest) header m.data rest := by
  let raw : RawAdbMessage :=
    ⟨Command.wire.cmdToWire m.command, m.arg0, m.arg1, m.data.length, dataCrc32 m.data, m.magic⟩
  have hraw : RawAdbMessage.unpack header = some raw := unpack_eq_some_iff.mpr h
  have hlen : header.length = 24 := length_of_unpackWords (unpackWords_eq_some_iff.mpr ⟨rfl, h⟩)
  have hread : pipe.read 24 (header ++ m.data ++ rest) = (.ok header, m.data ++ rest) := by
    simp only [pipe, List.append_assoc, List.take_left' hlen, List.drop_left' hlen]
  refine ⟨m.data ++ rest, hread, ?_⟩
  rw [(wordOf_unpack hraw).2.1, readData]
  split
  · simp [pipe, raw]
  · rename_i hempty
    have hnil : m.data = [] := by simpa [raw] using hempty
    simp [hnil]

/-- Every message that can be written is read back, whatever follows it. -/
theorem readMessage_pipe {m : AdbMessage} {header : List UInt8} (h : m.header = some header)
    (rest : List UInt8) : readMessage pipe (header ++ m.data ++ rest) = (.ok m, rest) :=
  readMessage_eq_ok_iff.mpr ⟨header, m.magic, delivers_pipe h rest, h⟩

theorem framing_exact_iff_write : RoundTrips pipe ⟨.WRTE, 1, 2, [104, 105]⟩ :=
  ((framing_exact_iff pipe).1 ⟨.WRTE, 1, 2, [104, 105]⟩ (by decide) (by decide)).mpr (by decide)

/-- An OKAY whose magic word is zero is accepted. -/
theorem not_framing_exact_magic : ∃ bytes m, readMessage pipe bytes = (.ok m, []) ∧
    m.header ≠ some bytes := by
  refine ⟨[79, 75, 65, 89, 1, 0, 0, 0, 2, 0, 0, 0, 0, 0, 0, 0, 0, 0, 0, 0, 0, 0, 0, 0],
    ⟨.OKAY, 1, 2, []⟩, ?_, ?_⟩
  · rfl
  · decide

end OpenHtf.Adb
