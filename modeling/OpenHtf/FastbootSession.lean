import OpenHtf.FastbootDownload

/-!
# Sessions of fastboot commands

`FastbootCommands` of `plugs.usb.fastboot_protocol`, over a device that keeps to the
protocol: it answers a command with INFOs and then an OKAY or a FAIL, and a download
with a DATA before it reads the data.  What the device makes of a command is a parameter.
-/

set_option autoImplicit false

namespace OpenHtf.Fastboot

/-! ## The device -/

/-- The texts of the INFOs, and that of the FAIL or of the final response. -/
structure Answer where
  infos : List (List Char)
  result : Except (List Char) (List Char)

/-- A device with states `D`: what a command, the announcement of a download and the
downloaded data do to it. -/
structure Bootloader (D : Type) where
  command : D → List UInt8 → Answer × D
  download : D → ℕ → Answer × D
  store : D → List UInt8 → Answer × D

/-- `'%08x' % n`. -/
def hex8 (n : ℕ) : List Char := (Nat.toDigits 16 n).leftpad 8 '0'

/-- The bytes of an ASCII text. -/
def ascii (text : List Char) : List UInt8 := text.map fun c ↦ UInt8.ofNat c.toNat

def downloadName : List UInt8 := ascii "download".toList

/-- The size that a command announces, if it is a download. -/
def announced (packet : List UInt8) : Option ℕ :=
  if packet.take 9 = downloadName ++ [58] then
    (acceptedSize ((packet.drop 9).map fun b ↦ Char.ofNat b.toNat)).toOption
  else none

/-- The device waits for a command, or for the rest of the data. -/
inductive Phase (D : Type) where
  | idle (d : D)
  | receiving (d : D) (size : ℕ) (got : List UInt8)

def Answer.infoResponses (a : Answer) : List (List Char) := a.infos.map fun text ↦ "INFO".toList ++ text

/-- The responses of an answer that ends with an OKAY or a FAIL. -/
def Answer.responses (a : Answer) : List (List Char) :=
  a.infoResponses ++
    [match a.result with
      | .ok text => "OKAY".toList ++ text
      | .error text => "FAIL".toList ++ text]

/-- Those of an answer that ends with a DATA or a FAIL. -/
def Answer.dataResponses (a : Answer) (size : ℕ) : List (List Char) :=
  a.infoResponses ++
    [match a.result with
      | .ok text => "DATA".toList ++ hex8 size ++ text
      | .error text => "FAIL".toList ++ text]

namespace Bootloader

variable {D : Type} (b : Bootloader D)

/-- With so much data, the device answers if it is complete. -/
def settle (d : D) (size : ℕ) (got : List UInt8) : List (List Char) × Phase D :=
  if got.length < size then ([], .receiving d size got)
  else
    let (a, d) := b.store d got
    (a.responses, .idle d)

/-- What the device does with a packet. -/
def receive : Phase D → List UInt8 → List (List Char) × Phase D
  | .receiving d size got, packet => b.settle d size (got ++ packet)
  | .idle d, packet =>
    match announced packet with
    | none =>
      let (a, d) := b.command d packet
      (a.responses, .idle d)
    | some size =>
      let (a, d) := b.download d size
      match a.result with
      | .error _ => (a.dataResponses size, .idle d)
      | .ok _ =>
        let (responses, phase) := b.settle d size []
        (a.dataResponses size ++ responses, phase)

end Bootloader

/-! ## The host -/

/-- The device, and what the host has read of its responses. -/
structure Session (D : Type) where
  phase : Phase D
  responses : Responses

/-- A call, if the loops of `_write` in it end within so many rounds. -/
abbrev Attempt (D α : Type) := Option (Except FastbootError α × Session D)

namespace Session

variable {D : Type}

/-- `usb.write`. -/
def write (b : Bootloader D) (s : Session D) (packet : List UInt8) : Session D :=
  let (responses, phase) := b.receive s.phase packet
  ⟨phase, { s.responses with unread := s.responses.unread ++ responses }⟩

def read {α : Type} (x : Act Responses FastbootError α) (s : Session D) : Except FastbootError α × Session D :=
  let (result, responses) := x s.responses
  (result, { s with responses := responses })

end Session

/-- What `send_command` sends. -/
def commandText (command : List UInt8) (arg : Option (List UInt8)) : List UInt8 :=
  match arg with
  | some arg => command ++ 58 :: arg
  | none => command

section Host

variable {D : Type} (b : Bootloader D) (chunk rounds : ℕ)

namespace FastbootProtocol

/-- `_write`. -/
def write (source : Source) (length : ℕ) (s : Session D) : Option (Session D) :=
  (Fastboot.write source chunk length rounds).map fun l ↦ l.written.foldl (Session.write b) s

def sendCommand (command : List UInt8) (arg : Option (List UInt8)) (s : Session D) : Option (Session D) :=
  let command := commandText command arg
  write b chunk rounds (.inMemory command) command.length s

def handleSimpleResponses (s : Session D) : Except FastbootError (List Char) × Session D :=
  s.read (acceptResponses "OKAY".toList s.responses.unread)

def handleDataSending (source : Source) (sourceLen : ℕ) (s : Session D) : Attempt D (List Char) :=
  match s.read (acceptDownload sourceLen) with
  | (.error e, s) => some (.error e, s)
  | (.ok accepted, s) => (write b chunk rounds source accepted s).map handleSimpleResponses

end FastbootProtocol

namespace FastbootCommands

open FastbootProtocol

/-- `_simple_command`. -/
def simpleCommand (command : List UInt8) (arg : Option (List UInt8)) (s : Session D) : Attempt D (List Char) :=
  (sendCommand b chunk rounds command arg s).map handleSimpleResponses

/-- `download` of a file-like object, where `data` is what `source_file.read()`
returns. -/
def download (source : Source) (data : List UInt8) (sourceLen : ℕ) (s : Session D) : Attempt D (List Char) :=
  let (source, sourceLen) := if sourceLen = 0 then (.inMemory data, data.length) else (source, sourceLen)
  (sendCommand b chunk rounds downloadName (some (ascii (hex8 sourceLen))) s).bind
    (FastbootProtocol.handleDataSending b chunk rounds source sourceLen)

/-- `download` of the file with that name, whose length `os.stat` knows. -/
def downloadFile (data : List UInt8) : Session D → Attempt D (List Char) :=
  download b chunk rounds (.inMemory data) data data.length

def flash (partition : List UInt8) : Session D → Attempt D (List Char) :=
  simpleCommand b chunk rounds (ascii "flash".toList) (some partition)

/-- `flash_from_file`: `download` takes the name and asks `os.stat` once more. -/
def flashFromFile (partition data : List UInt8) (s : Session D) : Attempt D (List Char) :=
  (downloadFile b chunk rounds data s).bind fun (r, s) ↦
    match r with
    | .error e => some (.error e, s)
    | .ok downloadResponse =>
      (flash b chunk rounds partition s).map fun (r, s) ↦ (r.map (downloadResponse ++ ·), s)

/-- `erase`, which returns nothing. -/
def erase (partition : List UInt8) (s : Session D) : Attempt D Unit :=
  (simpleCommand b chunk rounds (ascii "erase".toList) (some partition) s).map fun (r, s) ↦ (r.map fun _ ↦ (), s)

def getVar (var : List UInt8) : Session D → Attempt D (List Char) :=
  simpleCommand b chunk rounds (ascii "getvar".toList) (some var)

def oem (command : List UInt8) : Session D → Attempt D (List Char) :=
  simpleCommand b chunk rounds (ascii "oem ".toList ++ command) none

def continue' : Session D → Attempt D (List Char) :=
  simpleCommand b chunk rounds (ascii "continue".toList) none

def reboot (targetMode : Option (List UInt8)) : Session D → Attempt D (List Char) :=
  simpleCommand b chunk rounds (ascii "reboot".toList) targetMode

def rebootBootloader : Session D → Attempt D (List Char) :=
  simpleCommand b chunk rounds (ascii "reboot-bootloader".toList) none

end FastbootCommands

end Host

/-! ## Calls -/

/-- A call of a method of `FastbootCommands`. -/
inductive Call where
  | flashFromFile (partition data : List UInt8)
  | download (source : Source) (data : List UInt8) (sourceLen : ℕ)
  | downloadFile (data : List UInt8)
  | flash (partition : List UInt8)
  | erase (partition : List UInt8)
  | getVar (var : List UInt8)
  | oem (command : List UInt8)
  | continue'
  | reboot (targetMode : Option (List UInt8))
  | rebootBootloader

section Calls

variable {D : Type} (b : Bootloader D) (chunk rounds : ℕ)

/-- What the call returns, or nothing for `erase`. -/
def Call.run (c : Call) (s : Session D) : Attempt D (List Char) :=
  match c with
  | .flashFromFile partition data => FastbootCommands.flashFromFile b chunk rounds partition data s
  | .download source data sourceLen => FastbootCommands.download b chunk rounds source data sourceLen s
  | .downloadFile data => FastbootCommands.downloadFile b chunk rounds data s
  | .flash partition => FastbootCommands.flash b chunk rounds partition s
  | .erase partition => (FastbootCommands.erase b chunk rounds partition s).map fun (r, s) ↦ (r.map fun _ ↦ [], s)
  | .getVar var => FastbootCommands.getVar b chunk rounds var s
  | .oem command => FastbootCommands.oem b chunk rounds command s
  | .continue' => FastbootCommands.continue' b chunk rounds s
  | .reboot targetMode => FastbootCommands.reboot b chunk rounds targetMode s
  | .rebootBootloader => FastbootCommands.rebootBootloader b chunk rounds s

/-- The calls one after the other, whether they raise or not, and how each ends. -/
def runCalls : List Call → Session D → Option (List (Except FastbootError (List Char)) × Session D)
  | [], s => some ([], s)
  | c :: calls, s =>
    (c.run b chunk rounds s).bind fun (r, s) ↦ (runCalls calls s).map fun (rs, s) ↦ (r :: rs, s)

end Calls

/-! ## What the calls are for -/

/-- The device between two calls, and the messages that the callbacks got. -/
structure Ideal (D : Type) where
  device : D
  infos : List (List Char × List Char) := []

def Answer.infoMessages (a : Answer) : List (List Char × List Char) := a.infos.map fun text ↦ (text, "INFO".toList)

def Answer.messages (a : Answer) : List (List Char × List Char) :=
  a.infoMessages ++
    [match a.result with
      | .ok text => (text, "OKAY".toList)
      | .error text => (text, "FAIL".toList)]

def Answer.outcome (a : Answer) : Except FastbootError (List Char) :=
  match a.result with
  | .ok text => .ok text
  | .error text => .error (.remoteFailure text)

namespace Bootloader

variable {D : Type} (b : Bootloader D)

/-- The caller gets the answer. -/
def told (x : Answer × D) : Act (Ideal D) FastbootError (List Char) := fun i ↦
  (x.1.outcome, ⟨x.2, i.infos ++ x.1.messages⟩)

def simple (command : List UInt8) : Act (Ideal D) FastbootError (List Char) := fun i ↦
  told (b.command i.device command) i

/-- The device stores the data that it has accepted. -/
def put (data : List UInt8) : Act (Ideal D) FastbootError (List Char) := fun i ↦
  let x := b.download i.device data.length
  match x.1.result with
  | .error _ => told x i
  | .ok _ => told (b.store x.2 data) ⟨x.2, i.infos ++ x.1.infoMessages⟩

end Bootloader

/-- The bytes of a download. -/
def downloaded (source : Source) (data : List UInt8) (sourceLen : ℕ) : List UInt8 :=
  if sourceLen = 0 then data else source.contents.take sourceLen

def Call.ideal {D : Type} (b : Bootloader D) : Call → Act (Ideal D) FastbootError (List Char)
  | .flashFromFile partition data => do
    let downloadResponse ← b.put data
    let flashResponse ← b.simple (commandText (ascii "flash".toList) (some partition))
    pure (downloadResponse ++ flashResponse)
  | .download source data sourceLen => b.put (downloaded source data sourceLen)
  | .downloadFile data => b.put data
  | .flash partition => b.simple (commandText (ascii "flash".toList) (some partition))
  | .erase partition => do
    let _ ← b.simple (commandText (ascii "erase".toList) (some partition))
    pure []
  | .getVar var => b.simple (commandText (ascii "getvar".toList) (some var))
  | .oem command => b.simple (ascii "oem ".toList ++ command)
  | .continue' => b.simple (ascii "continue".toList)
  | .reboot targetMode => b.simple (commandText (ascii "reboot".toList) targetMode)
  | .rebootBootloader => b.simple (ascii "reboot-bootloader".toList)

def idealCalls {D : Type} (b : Bootloader D) : List Call → Ideal D → List (Except FastbootError (List Char)) × Ideal D
  | [], i => ([], i)
  | c :: calls, i =>
    let (r, i) := c.ideal b i
    let (rs, i) := idealCalls b calls i
    (r :: rs, i)

/-! ## Sizes -/

theorem hexDigit_digitChar {d : ℕ} (h : d < 16) : hexDigit d.digitChar = some d := by
  have hall : ∀ d < 16, hexDigit d.digitChar = some d := by decide
  exact hall d h

theorem mapM_hexDigit_toDigits (n : ℕ) : ∃ ds, (Nat.toDigits 16 n).mapM hexDigit = some ds ∧
    ds.length = (Nat.toDigits 16 n).length ∧ Nat.ofDigits 16 ds.reverse = n := by
  induction n using Nat.strong_induction_on with
  | _ n ih =>
      obtain hlt | hle := Nat.lt_or_ge n 16
      · rw [Nat.toDigits_of_lt_base hlt]
        exact ⟨[n], by simp [hexDigit_digitChar hlt], by simp⟩
      · obtain ⟨ds, hds, hlength, hvalue⟩ := ih (n / 16) (by omega)
        rw [Nat.toDigits_of_base_le (by norm_num) hle]
        refine ⟨ds ++ [n % 16], ?_, by simp [hlength], ?_⟩
        · rw [List.mapM_append, hds]
          simp [hexDigit_digitChar (Nat.mod_lt n (by norm_num : 16 > 0))]
        · rw [List.reverse_append, List.reverse_singleton, List.singleton_append, Nat.ofDigits_cons, hvalue]
          exact Nat.mod_add_div n 16

theorem length_toDigits_le {n : ℕ} (h : n < 2 ^ 32) : (Nat.toDigits 16 n).length ≤ 8 :=
  (Nat.length_toDigits_le_iff (by norm_num) (by norm_num)).mpr (h.trans_le (by norm_num))

theorem length_hex8 {n : ℕ} (h : n < 2 ^ 32) : (hex8 n).length = 8 := by
  rw [hex8, List.length_leftpad, max_eq_left (length_toDigits_le h)]

/-- A size is read back from its eight digits, whatever comes behind them. -/
theorem acceptedSize_hex8 {n : ℕ} (h : n < 2 ^ 32) (text : List Char) : acceptedSize (hex8 n ++ text) = .ok n := by
  obtain ⟨ds, hds, hlengthds, hvalue⟩ := mapM_hexDigit_toDigits n
  have hlength : (Nat.toDigits 16 n).length ≤ 8 := length_toDigits_le h
  set k := 8 - (Nat.toDigits 16 n).length with hk
  have hdigits : (hex8 n).mapM hexDigit = some (List.replicate k 0 ++ ds) := by
    have hzeros : (List.replicate k '0').mapM hexDigit = some (List.replicate k 0) := by
      induction k with
      | zero => rfl
      | succ k ih => simp [List.replicate_succ, ih, hexDigit]
    rw [hex8, List.leftpad, List.mapM_append, ← hk, hzeros, hds]
    rfl
  have hds8 : (List.replicate k 0 ++ ds).length = 8 := by
    rw [List.length_append, List.length_replicate]
    omega
  rw [acceptedSize, List.take_left' (length_hex8 h), hdigits]
  simp only [hds8]
  norm_num
  exact hvalue

theorem exists_digitChar_of_mem_toDigits {n : ℕ} {c : Char} (h : c ∈ Nat.toDigits 16 n) :
    ∃ d < 16, c = d.digitChar := by
  induction n using Nat.strong_induction_on with
  | _ n ih =>
      obtain hlt | hle := Nat.lt_or_ge n 16
      · rw [Nat.toDigits_of_lt_base hlt, List.mem_singleton] at h
        exact ⟨n, hlt, h⟩
      · rw [Nat.toDigits_of_base_le (by norm_num) hle, List.mem_append, List.mem_singleton] at h
        obtain h | h := h
        · exact ih (n / 16) (by omega) h
        · exact ⟨n % 16, Nat.mod_lt n (by norm_num), h⟩

/-- Digits are ASCII. -/
theorem map_ascii_hex8 (n : ℕ) : (ascii (hex8 n)).map (fun b ↦ Char.ofNat b.toNat) = hex8 n := by
  rw [ascii, List.map_map]
  conv_rhs => rw [← List.map_id (hex8 n)]
  apply List.map_congr_left
  intro c hc
  obtain ⟨d, hd, rfl⟩ : ∃ d < 16, c = d.digitChar := by
    rw [hex8, List.leftpad, List.mem_append, List.mem_replicate] at hc
    obtain ⟨-, rfl⟩ | hc := hc
    · exact ⟨0, by norm_num, rfl⟩
    · exact exists_digitChar_of_mem_toDigits hc
  have hall : ∀ d < 16, Char.ofNat (UInt8.ofNat (Nat.digitChar d).toNat).toNat = d.digitChar := by decide
  exact hall d hd

theorem announced_download {n : ℕ} (h : n < 2 ^ 32) :
    announced (commandText downloadName (some (ascii (hex8 n)))) = some n := by
  have hsize := acceptedSize_hex8 h []
  rw [List.append_nil, ← map_ascii_hex8] at hsize
  have hlength : (downloadName ++ [58]).length = 9 := rfl
  have htext : commandText downloadName (some (ascii (hex8 n))) = (downloadName ++ [58]) ++ ascii (hex8 n) := by
    simp [commandText]
  rw [announced, htext, List.take_left' hlength, List.drop_left' hlength, if_pos rfl, hsize]
  rfl

/-- The other commands begin with another letter. -/
theorem announced_eq_none {c : UInt8} {command : List UInt8} (h : c ≠ 100) : announced (c :: command) = none := by
  rw [announced, if_neg]
  intro heq
  have hhead : c = 100 := by
    simpa [downloadName, ascii] using congrArg List.head? heq
  exact h hhead

/-! ## Answers -/

variable {D : Type} {b : Bootloader D} {chunk rounds : ℕ} {expected : List Char} {r : Responses}

theorem acceptResponses_info (text : List Char) {rest : List (List Char)} :
    acceptResponses expected (("INFO".toList ++ text) :: rest) r =
      acceptResponses expected rest ⟨rest, r.infos ++ [(text, "INFO".toList)]⟩ := by
  rfl

theorem acceptResponses_infos (a : Answer) {rest : List (List Char)} {infos : List (List Char × List Char)} :
    acceptResponses expected (a.infoResponses ++ rest) ⟨a.infoResponses ++ rest, infos⟩ =
      acceptResponses expected rest ⟨rest, infos ++ a.infoMessages⟩ := by
  obtain ⟨texts, result⟩ := a
  simp only [Answer.infoResponses, Answer.infoMessages]
  induction texts generalizing infos with
  | nil => simp
  | cons text texts ih =>
      rw [List.map_cons, List.cons_append, acceptResponses_info, ih]
      simp

theorem acceptResponses_okay (text : List Char) {rest : List (List Char)} :
    acceptResponses "OKAY".toList (("OKAY".toList ++ text) :: rest) r =
      (.ok text, ⟨rest, r.infos ++ [(text, "OKAY".toList)]⟩) := by
  rfl

theorem acceptResponses_data (text : List Char) {rest : List (List Char)} :
    acceptResponses "DATA".toList (("DATA".toList ++ text) :: rest) r = (.ok text, { r with unread := rest }) := by
  rfl

theorem acceptResponses_fail (text : List Char) {rest : List (List Char)} :
    acceptResponses expected (("FAIL".toList ++ text) :: rest) r =
      (.error (.remoteFailure text), ⟨rest, r.infos ++ [(text, "FAIL".toList)]⟩) := by
  rfl

/-- The host reads one answer. -/
theorem acceptResponses_responses (a : Answer) (rest : List (List Char)) (infos : List (List Char × List Char)) :
    acceptResponses "OKAY".toList (a.responses ++ rest) ⟨a.responses ++ rest, infos⟩ =
      (a.outcome, ⟨rest, infos ++ a.messages⟩) := by
  rw [Answer.responses, List.append_assoc, acceptResponses_infos, Answer.outcome, Answer.messages]
  cases a.result with
  | ok text =>
      rw [List.singleton_append, acceptResponses_okay]
      simp
  | error text =>
      rw [List.singleton_append, acceptResponses_fail]
      simp

/-- A download that the device refuses. -/
theorem acceptDownload_error {a : Answer} {text : List Char} (ha : a.result = .error text) (size n : ℕ)
    (rest : List (List Char)) (infos : List (List Char × List Char)) :
    acceptDownload n ⟨a.dataResponses size ++ rest, infos⟩ =
      (.error (.remoteFailure text), ⟨rest, infos ++ a.messages⟩) := by
  have htext : acceptResponses "DATA".toList (a.dataResponses size ++ rest) ⟨a.dataResponses size ++ rest, infos⟩ =
      (.error (.remoteFailure text), ⟨rest, infos ++ a.messages⟩) := by
    rw [Answer.dataResponses, ha, List.append_assoc, acceptResponses_infos, List.singleton_append,
      acceptResponses_fail text, Answer.messages, ha, List.append_assoc]
  unfold acceptDownload
  rw [Act.bind_apply, htext]
  rfl

theorem acceptDownload_ok {a : Answer} {text : List Char} (ha : a.result = .ok text) {size : ℕ} (hsize : size < 2 ^ 32)
    (rest : List (List Char)) (infos : List (List Char × List Char)) :
    acceptDownload size ⟨a.dataResponses size ++ rest, infos⟩ = (.ok size, ⟨rest, infos ++ a.infoMessages⟩) := by
  have htext : acceptResponses "DATA".toList (a.dataResponses size ++ rest) ⟨a.dataResponses size ++ rest, infos⟩ =
      (.ok (hex8 size ++ text), ⟨rest, infos ++ a.infoMessages⟩) := by
    rw [Answer.dataResponses, ha, List.append_assoc, acceptResponses_infos, List.singleton_append]
    exact acceptResponses_data (hex8 size ++ text)
  unfold acceptDownload
  rw [Act.bind_apply, htext]
  simp [Act.andThen, acceptedSize_hex8 hsize]

/-! ## Writes -/

variable {s : Session D} {d : D} {i : Ideal D}

def Ideal.session (i : Ideal D) : Session D := ⟨.idle i.device, ⟨[], i.infos⟩⟩

/-- What the device has made of a packet. -/
def Session.after (s : Session D) (x : List (List Char) × Phase D) : Session D :=
  ⟨x.2, { s.responses with unread := s.responses.unread ++ x.1 }⟩

theorem write_eq (packet : List UInt8) : s.write b packet = s.after (b.receive s.phase packet) := rfl

/-- A text that fits into a chunk is one packet. -/
theorem write_inMemory {text : List UInt8} (hne : text ≠ []) (hle : text.length ≤ chunk) (hrounds : 1 ≤ rounds) :
    FastbootProtocol.write b chunk rounds (.inMemory text) text.length s = some (s.write b text) := by
  have hread : (Source.inMemory text).read 0 chunk = text := by
    simp [Source.read, Source.inMemory, take_ofList, List.take_of_length_le hle]
  have hone : after (.inMemory text) chunk text.length 1 =
      { length := 0, position := text.length, written := [text], progress := [(text.length, text.length)] } := by
    simp [after, round, hread, hne]
  have hzero : (after (.inMemory text) chunk text.length 1).length = 0 := by rw [hone]
  rw [FastbootProtocol.write, write_eq_some_iff.mpr ⟨_, after_eq_of_le hzero hrounds⟩, hone]
  · rfl
  · rw [after_eq_of_le hzero hrounds, hzero]

/-- As long as data is missing, the device takes it without a response. -/
theorem receive_settle {size : ℕ} {got packet : List UInt8} (h : got.length < size) :
    (s.after (b.settle d size got)).write b packet = s.after (b.settle d size (got ++ packet)) := by
  have hsettle : b.settle d size got = ([], .receiving d size got) := if_pos h
  rw [write_eq, hsettle]
  simp [Session.after, Bootloader.receive]

/-- The chunks of the data arrive as one piece. -/
theorem foldl_write_after {source : Source} {size : ℕ}
    (hbounded : ∀ rounds, (after source chunk size rounds).written.flatten.length ≤ size) (rounds : ℕ) (s : Session D) :
    (after source chunk size rounds).written.foldl (Session.write b) (s.after (b.settle d size [])) =
      s.after (b.settle d size (after source chunk size rounds).written.flatten) := by
  induction rounds with
  | zero => rfl
  | succ rounds ih =>
      have hinv := inv_after source chunk size rounds
      rw [after_succ, round]
      split_ifs with hzero
      · exact ih
      · have hlt : (after source chunk size rounds).written.flatten.length < size := by
          have hadd := hinv.length_add
          apply lt_of_le_of_ne (hbounded rounds)
          intro heq
          rw [hinv.written, hinv.length_take] at heq
          omega
        simp only [List.foldl_append, List.flatten_append, List.foldl_cons, List.foldl_nil, List.flatten_singleton]
        rw [ih, receive_settle hlt]

theorem Arrives.length_take {source : Source} {size : ℕ} (h : Arrives source chunk size) :
    (source.contents.take size).length = size := by
  obtain ⟨N, l, hwrite⟩ := h.sendsAnnounced.ends
  obtain ⟨hwritten, hlength⟩ := h.sendsAnnounced.exact N l hwrite
  rw [← hwritten, hlength]

/-- The device gets just the announced bytes of the source. -/
theorem write_settle {source : Source} {size : ℕ} (h : Arrives source chunk size) (s : Session D) (d : D) :
    ∃ N, ∀ rounds ≥ N, FastbootProtocol.write b chunk rounds source size (s.after (b.settle d size [])) =
      some (s.after (b.settle d size (source.contents.take size))) := by
  have hsends := h.sendsAnnounced
  obtain ⟨N, l, hwrite⟩ := hsends.ends
  obtain ⟨hzero, rfl⟩ := write_eq_some_iff.mp hwrite
  refine ⟨N, fun rounds hrounds ↦ ?_⟩
  have hafter := after_eq_of_le hzero hrounds
  rw [FastbootProtocol.write, write_eq_some_iff.mpr ⟨hafter ▸ hzero, hafter⟩, Option.map_some,
    ← (hsends.exact N _ hwrite).1]
  rw [foldl_write_after hsends.bounded]

/-! ## Calls in step -/

theorem handleSimpleResponses_responses (a : Answer) (d : D) (infos : List (List Char × List Char)) :
    FastbootProtocol.handleSimpleResponses ⟨.idle d, ⟨a.responses, infos⟩⟩ =
      (a.outcome, Ideal.session ⟨d, infos ++ a.messages⟩) := by
  have h := acceptResponses_responses a [] infos
  rw [List.append_nil] at h
  simp only [FastbootProtocol.handleSimpleResponses, Session.read, h]
  rfl

/-- A command that is no download. -/
structure Simple (chunk : ℕ) (text : List UInt8) : Prop where
  ne_nil : text ≠ []
  length_le : text.length ≤ chunk
  announced : announced text = none

theorem Simple.of_cons {text rest : List UInt8} {c : UInt8} (htext : text = c :: rest) (hc : c ≠ 100)
    (hle : text.length ≤ chunk) : Simple chunk text := by
  subst htext
  exact ⟨List.cons_ne_nil c rest, hle, announced_eq_none hc⟩

theorem simpleCommand_session {command : List UInt8} {arg : Option (List UInt8)} (h : Simple chunk (commandText command arg))
    (hrounds : 1 ≤ rounds) (i : Ideal D) : FastbootCommands.simpleCommand b chunk rounds command arg i.session =
      some ((b.simple (commandText command arg) i).1, (b.simple (commandText command arg) i).2.session) := by
  rw [FastbootCommands.simpleCommand, FastbootProtocol.sendCommand, write_inMemory h.ne_nil h.length_le hrounds,
    Option.map_some, write_eq, Ideal.session, Bootloader.receive, h.announced]
  exact congrArg some (handleSimpleResponses_responses _ _ _)

/-- The announcement of the data, the data, and the answers to both. -/
theorem download_session {source : Source} {size : ℕ} (hsize : size < 2 ^ 32) (hchunk : 17 ≤ chunk)
    (harrives : Arrives source chunk size) (i : Ideal D) :
    ∃ N, ∀ rounds ≥ N,
      (FastbootProtocol.sendCommand b chunk rounds downloadName (some (ascii (hex8 size))) i.session).bind
          (FastbootProtocol.handleDataSending b chunk rounds source size) =
        some ((b.put (source.contents.take size) i).1, (b.put (source.contents.take size) i).2.session) := by
  have hlength := harrives.length_take
  have hne : commandText downloadName (some (ascii (hex8 size))) ≠ [] := by simp [commandText]
  have hle : (commandText downloadName (some (ascii (hex8 size)))).length ≤ chunk := by
    have hname : downloadName.length = 8 := rfl
    simp only [commandText, List.length_append, List.length_cons, ascii, List.length_map, length_hex8 hsize, hname]
    omega
  rcases hx : b.download i.device size with ⟨a, d⟩
  cases hresult : a.result with
  | error text =>
      refine ⟨1, fun rounds hrounds ↦ ?_⟩
      rw [FastbootProtocol.sendCommand, write_inMemory hne hle hrounds, Option.bind_some, write_eq]
      have hreceive : b.receive i.session.phase (commandText downloadName (some (ascii (hex8 size)))) =
          (a.dataResponses size, .idle d) := by
        simp [Ideal.session, Bootloader.receive, announced_download hsize, hx, hresult]
      have haccept := acceptDownload_error hresult size size [] i.infos
      rw [List.append_nil] at haccept
      rw [hreceive, FastbootProtocol.handleDataSending, Session.read, Session.after]
      simp only [Ideal.session, List.nil_append, haccept, Bootloader.put, hlength, hx, hresult]
      simp [Bootloader.told, Answer.outcome, hresult]
  | ok text =>
      obtain ⟨N, hN⟩ := write_settle (b := b) harrives ⟨.idle d, ⟨[], i.infos ++ a.infoMessages⟩⟩ d
      refine ⟨max N 1, fun rounds hrounds ↦ ?_⟩
      rw [FastbootProtocol.sendCommand, write_inMemory hne hle (le_of_max_le_right hrounds), Option.bind_some, write_eq]
      have hreceive : b.receive i.session.phase (commandText downloadName (some (ascii (hex8 size)))) =
          (a.dataResponses size ++ (b.settle d size []).1, (b.settle d size []).2) := by
        simp [Ideal.session, Bootloader.receive, announced_download hsize, hx, hresult]
      have haccept := acceptDownload_ok hresult hsize (b.settle d size []).1 i.infos
      rw [hreceive, FastbootProtocol.handleDataSending, Session.read, Session.after]
      simp only [Ideal.session, List.nil_append, haccept, Bootloader.put, hlength, hx, hresult]
      have hwrite := hN rounds (le_of_max_le_left hrounds)
      simp only [Session.after, List.nil_append] at hwrite
      have hsettle : b.settle d size (source.contents.take size) =
          ((b.store d (source.contents.take size)).1.responses, .idle (b.store d (source.contents.take size)).2) :=
        if_neg (by omega)
      rw [hwrite, Option.map_some, hsettle]
      exact congrArg some (handleSimpleResponses_responses _ _ _)

/-- The commands of a call are not longer than a chunk; the size of its data is a
word, and the reads of the source come to a point where they have returned just as much. -/
def Call.Fits (chunk : ℕ) : Call → Prop
  | .flashFromFile partition data =>
    data.length < 2 ^ 32 ∧ (commandText (ascii "flash".toList) (some partition)).length ≤ chunk
  | .download source data sourceLen =>
    if sourceLen = 0 then data.length < 2 ^ 32 else sourceLen < 2 ^ 32 ∧ Arrives source chunk sourceLen
  | .downloadFile data => data.length < 2 ^ 32
  | .flash partition => (commandText (ascii "flash".toList) (some partition)).length ≤ chunk
  | .erase partition => (commandText (ascii "erase".toList) (some partition)).length ≤ chunk
  | .getVar var => (commandText (ascii "getvar".toList) (some var)).length ≤ chunk
  | .oem command => (ascii "oem ".toList ++ command).length ≤ chunk
  | .continue' | .rebootBootloader => True
  | .reboot targetMode => (commandText (ascii "reboot".toList) targetMode).length ≤ chunk

/-- In step with the device, a download of what is in memory stays in step. -/
theorem download_inMemory_session {data : List UInt8} (hsize : data.length < 2 ^ 32) (hchunk : 17 ≤ chunk) (i : Ideal D) :
    ∃ N, ∀ rounds ≥ N,
      (FastbootProtocol.sendCommand b chunk rounds downloadName (some (ascii (hex8 data.length))) i.session).bind
          (FastbootProtocol.handleDataSending b chunk rounds (.inMemory data) data.length) =
        some ((b.put data i).1, (b.put data i).2.session) := by
  have htake : (Source.inMemory data).contents.take data.length = data := by
    simp [Source.inMemory, take_ofList]
  have h := download_session (b := b) hsize hchunk (arrives_inMemory (by omega) data) i
  rwa [htake] at h

theorem downloadFile_session {data : List UInt8} (hsize : data.length < 2 ^ 32) (hchunk : 17 ≤ chunk) (i : Ideal D) :
    ∃ N, ∀ rounds ≥ N, FastbootCommands.downloadFile b chunk rounds data i.session =
      some ((b.put data i).1, (b.put data i).2.session) := by
  have h := download_inMemory_session (b := b) hsize hchunk i
  simpa only [FastbootCommands.downloadFile, FastbootCommands.download, ite_self] using h

theorem simpleCommand_reached {command : List UInt8} (arg : Option (List UInt8))
    (h : Simple chunk (commandText command arg)) (i : Ideal D) :
    ∃ N, ∀ rounds ≥ N, FastbootCommands.simpleCommand b chunk rounds command arg i.session =
      some ((b.simple (commandText command arg) i).1, (b.simple (commandText command arg) i).2.session) :=
  ⟨1, fun _ hrounds ↦ simpleCommand_session h hrounds i⟩

theorem Call.run_session {c : Call} (hfits : c.Fits chunk) (hchunk : 17 ≤ chunk) (i : Ideal D) :
    ∃ N, ∀ rounds ≥ N, c.run b chunk rounds i.session = some ((c.ideal b i).1, (c.ideal b i).2.session) := by
  cases c with
  | flash partition => exact simpleCommand_reached _ (.of_cons rfl (by decide) hfits) i
  | getVar var => exact simpleCommand_reached _ (.of_cons rfl (by decide) hfits) i
  | oem command => exact simpleCommand_reached none (.of_cons rfl (by decide) hfits) i
  | continue' =>
      have hle : (ascii "continue".toList).length ≤ chunk := le_trans (by decide) hchunk
      exact simpleCommand_reached none (.of_cons rfl (by decide) hle) i
  | rebootBootloader =>
      have hle : (ascii "reboot-bootloader".toList).length ≤ chunk := le_trans (by decide) hchunk
      exact simpleCommand_reached none (.of_cons rfl (by decide) hle) i
  | reboot targetMode =>
      cases targetMode with
      | none => exact simpleCommand_reached none (.of_cons rfl (by decide) hfits) i
      | some mode => exact simpleCommand_reached _ (.of_cons rfl (by decide) hfits) i
  | erase partition =>
      obtain ⟨N, hN⟩ := simpleCommand_reached (b := b) (some partition) (.of_cons rfl (by decide) hfits) i
      refine ⟨N, fun rounds hrounds ↦ ?_⟩
      rw [Call.run, FastbootCommands.erase, hN rounds hrounds, Call.ideal, Act.bind_apply]
      rcases b.simple (commandText (ascii "erase".toList) (some partition)) i with ⟨e | text, j⟩ <;> rfl
  | downloadFile data => exact downloadFile_session hfits hchunk i
  | download source data sourceLen =>
      rw [Call.Fits] at hfits
      simp only [Call.run, FastbootCommands.download, Call.ideal, downloaded]
      split_ifs at hfits ⊢ with hzero
      · exact download_inMemory_session hfits hchunk i
      · exact download_session hfits.1 hchunk hfits.2 i
  | flashFromFile partition data =>
      obtain ⟨N, hN⟩ := downloadFile_session (b := b) hfits.1 hchunk i
      refine ⟨max N 1, fun rounds hrounds ↦ ?_⟩
      rw [Call.run, FastbootCommands.flashFromFile, hN rounds (le_of_max_le_left hrounds), Option.bind_some, Call.ideal,
        Act.bind_apply]
      rcases b.put data i with ⟨e | downloadResponse, j⟩
      · rfl
      · simp only [FastbootCommands.flash]
        rw [simpleCommand_session (.of_cons rfl (by decide) hfits.2) (le_of_max_le_right hrounds), Option.map_some,
          Act.andThen, Act.bind_apply]
        rcases b.simple (commandText (ascii "flash".toList) (some partition)) j with ⟨e | flashResponse, k⟩ <;> rfl

/-- A locked device, which lets no partition be erased and keeps what is stored. -/
def locked : Bootloader (List (List UInt8)) where
  command d packet :=
    if packet.take 5 = ascii "erase".toList then (⟨[], .error "locked".toList⟩, d)
    else (⟨["busy".toList], .ok "done".toList⟩, d)
  download d _ := (⟨[], .ok []⟩, d)
  store d data := (⟨[], .ok []⟩, d ++ [data])

end OpenHtf.Fastboot
