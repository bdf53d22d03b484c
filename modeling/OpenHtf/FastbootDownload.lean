import Mathlib.Data.Nat.Digits.Defs
import Mathlib.Data.Seq.Basic
import OpenHtf.Lib.Action

/-!
# Downloads to a device in fastboot

`FastbootProtocol` of `plugs.usb.fastboot_protocol`: the responses of the device,
`handle_data_sending`, and the loop of `_write`, which need not end and is
therefore a function of the number of its rounds.  The size `chunk` of its reads is
`FASTBOOT_DOWNLOAD_CHUNK_SIZE_KB * 1024`, which a flag sets.
-/

set_option autoImplicit false

namespace OpenHtf.Fastboot

open Stream' (Seq)

/-! ## Sources -/

/-- A file-like object: its bytes, of which there may be endlessly many, and how
many of the requested ones a read at a position returns if they are there. -/
structure Source where
  contents : Seq UInt8
  amount : ℕ → ℕ → ℕ
  amount_le : ∀ position n, amount position n ≤ n
  amount_pos : ∀ position n, 0 < n → 0 < amount position n

namespace Source

def read (source : Source) (position n : ℕ) : List UInt8 :=
  (source.contents.drop position).take (source.amount position n)

/-- An `io.StringIO`. -/
def inMemory (data : List UInt8) : Source where
  contents := data
  amount _ n := n
  amount_le _ _ := le_rfl
  amount_pos _ _ h := h

/-- Where the source is after `k` reads of `n` bytes. -/
def position (source : Source) (n : ℕ) : ℕ → ℕ
  | 0 => 0
  | k + 1 => source.position n k + (source.read (source.position n k) n).length

end Source

/-! ## The write loop -/

/-- The variable `length` of `_write`, the position of the source, what the device
has got, and the calls of the progress callback. -/
structure Loop where
  length : ℤ
  position : ℕ := 0
  written : List (List UInt8) := []
  progress : List (ℕ × ℕ) := []

/-- A round of the loop in `_write`, if there is one. -/
def round (source : Source) (chunk total : ℕ) (l : Loop) : Loop :=
  if l.length = 0 then l
  else
    let tmp := source.read l.position chunk
    { length := l.length - tmp.length
      position := l.position + tmp.length
      written := l.written ++ [tmp]
      progress := l.progress ++ [(l.position + tmp.length, total)] }

/-- `_write` after so many rounds. -/
def after (source : Source) (chunk length rounds : ℕ) : Loop :=
  (round source chunk length)^[rounds] { length := length }

/-- `_write`, if it ends within so many rounds. -/
def write (source : Source) (chunk length rounds : ℕ) : Option Loop :=
  if (after source chunk length rounds).length = 0 then some (after source chunk length rounds) else none

/-! ## Downloads -/

/-- The errors of `usb_exceptions`, and those of `binascii`, `struct` and the read. -/
inductive FastbootError where
  | stateMismatch (expected header : List Char)
  | remoteFailure (remaining : List Char)
  | invalidResponse (header remaining : List Char)
  | transfer (sourceLen acceptedSize : ℕ)
  | binascii
  | struct
  | readFailed

/-- The responses of the device that have not been read, and the messages that
the callback got. -/
structure Responses where
  unread : List (List Char)
  infos : List (List Char × List Char) := []

def FINAL_HEADERS : List (List Char) := ["OKAY".toList, "DATA".toList]

def Responses.info (remaining header : List Char) (r : Responses) : Responses :=
  { r with infos := r.infos ++ [(remaining, header)] }

/-- `_accept_responses`, over the responses that have not been read. -/
def acceptResponses (expected : List Char) : List (List Char) → Act Responses FastbootError (List Char)
  | [] => fun r ↦ (.error .readFailed, { r with unread := [] })
  | response :: rest => fun r ↦
    let header := response.take 4
    let remaining := response.drop 4
    let r := { r with unread := rest }
    if header = "INFO".toList then acceptResponses expected rest (r.info remaining header)
    else if FINAL_HEADERS.contains header then
      if header ≠ expected then (.error (.stateMismatch expected header), r)
      else if header = "OKAY".toList then (.ok remaining, r.info remaining header)
      else (.ok remaining, r)
    else if header = "FAIL".toList then (.error (.remoteFailure remaining), r.info remaining header)
    else (.error (.invalidResponse header remaining), r)

def hexDigit (c : Char) : Option ℕ :=
  if c.isDigit then some (c.toNat - '0'.toNat)
  else if 'a' ≤ c ∧ c ≤ 'f' then some (c.toNat - 'a'.toNat + 10)
  else if 'A' ≤ c ∧ c ≤ 'F' then some (c.toNat - 'A'.toNat + 10)
  else none

/-- `unhexlify` of the first eight characters, and `struct.unpack('>I', ..)`. -/
def acceptedSize (text : List Char) : Except FastbootError ℕ :=
  match (text.take 8).mapM hexDigit with
  | none => .error .binascii
  | some digits =>
    if digits.length % 2 = 1 then .error .binascii
    else if digits.length = 8 then .ok (Nat.ofDigits 16 digits.reverse)
    else .error .struct

/-- What `handle_data_sending` does before it writes. -/
def acceptDownload (sourceLen : ℕ) : Act Responses FastbootError ℕ := fun r ↦
  (do
    let text ← acceptResponses "DATA".toList r.unread
    let accepted ← Act.ofExcept (acceptedSize text)
    if accepted ≠ sourceLen then Act.raise (.transfer sourceLen accepted)
    pure accepted : Act Responses FastbootError ℕ) r

/-- `handle_data_sending`, if its write ends within so many rounds. -/
def handleDataSending (source : Source) (chunk sourceLen rounds : ℕ) (r : Responses) :
    Option (Except FastbootError (List Char × Loop) × Responses) :=
  match acceptDownload sourceLen r with
  | (.error e, r) => some (.error e, r)
  | (.ok accepted, r) =>
    (write source chunk accepted rounds).map fun l ↦
      match acceptResponses "OKAY".toList r.unread r with
      | (.error e, r) => (.error e, r)
      | (.ok text, r) => (.ok (text, l), r)

/-- `download` of a file-like object, where `data` is what `source_file.read()`
returns. -/
def download (source : Source) (data : List UInt8) (chunk sourceLen rounds : ℕ) (r : Responses) :
    Option (Except FastbootError (List Char × Loop) × Responses) :=
  if sourceLen = 0 then handleDataSending (.inMemory data) chunk data.length rounds r
  else handleDataSending source chunk sourceLen rounds r

/-! ## The announced bytes -/

/-- The loop of `_write` ends, has then written the announced bytes of the source,
and never writes more than them.  There is no statement in it that raises, so this
is not so of any source that is shorter. -/
structure SendsAnnounced (source : Source) (chunk accepted length : ℕ) : Prop where
  ends : ∃ rounds l, write source chunk accepted rounds = some l
  exact : ∀ rounds l, write source chunk accepted rounds = some l →
    l.written.flatten = source.contents.take length ∧ l.written.flatten.length = length
  bounded : ∀ rounds, (after source chunk accepted rounds).written.flatten.length ≤ length

/-- The reads come to a point where they have returned just `length` bytes. -/
def Arrives (source : Source) (chunk length : ℕ) : Prop := ∃ k, source.position chunk k = length

/-! ## Reads -/

section Sources

variable {α : Type}

theorem take_add (contents : Seq α) (m n : ℕ) :
    contents.take (m + n) = contents.take m ++ (contents.drop m).take n := by
  induction m generalizing contents with
  | zero => simp
  | succ m ih =>
      rw [Nat.succ_add]
      cases contents using Stream'.Seq.recOn with
      | nil => simp
      | cons x contents => simp [ih]

/-- Behind what has been taken, the bytes go on where it ended. -/
theorem take_length_take_add (contents : Seq α) (m n : ℕ) :
    contents.take ((contents.take m).length + n) = contents.take (m + n) := by
  induction m generalizing contents with
  | zero => simp
  | succ m ih =>
      rw [Nat.succ_add]
      cases contents using Stream'.Seq.recOn with
      | nil => simp
      | cons x contents => simp [Nat.succ_add, ih]

theorem take_length_take (contents : Seq α) (n : ℕ) :
    contents.take (contents.take n).length = contents.take n := take_length_take_add contents n 0

theorem take_ofList (data : List α) (n : ℕ) : (data : Seq α).take n = data.take n := by
  induction data generalizing n with
  | nil => simp
  | cons x data ih =>
      cases n with
      | zero => simp
      | succ n => simp [ih]

theorem length_take_eq_min (contents : Seq α) {m n : ℕ} (hle : m ≤ n) :
    (contents.take m).length = min m (contents.take n).length := by
  induction m generalizing contents n with
  | zero => simp
  | succ m ih =>
      obtain ⟨n, rfl⟩ : ∃ k, n = k + 1 := Nat.exists_eq_add_one.mpr (by omega)
      cases contents using Stream'.Seq.recOn with
      | nil => simp
      | cons x contents => simp [ih contents (Nat.le_of_succ_le_succ hle)]

end Sources

section Loops

variable {source : Source} {chunk length total : ℕ} {l : Loop}

/-- The device has got the bytes of the source up to its position. -/
structure Inv (source : Source) (length : ℕ) (l : Loop) : Prop where
  written : l.written.flatten = source.contents.take l.position
  length_take : (source.contents.take l.position).length = l.position
  length_add : l.length + l.position = length

theorem Inv.round (hinv : Inv source length l) : Inv source length (round source chunk total l) := by
  rw [Fastboot.round]
  split
  · exact hinv
  · set tmp := source.read l.position chunk with htmp
    have htake : source.contents.take (l.position + tmp.length) = source.contents.take l.position ++ tmp := by
      rw [take_add, htmp, Source.read, take_length_take]
    constructor
    · rw [List.flatten_append, hinv.written, htake, List.flatten_singleton]
    · rw [htake, List.length_append, hinv.length_take]
    · have hadd := hinv.length_add
      push_cast
      omega

theorem after_succ (rounds : ℕ) :
    after source chunk length (rounds + 1) = round source chunk length (after source chunk length rounds) :=
  Function.iterate_succ_apply' _ _ _

theorem inv_after (source : Source) (chunk length rounds : ℕ) :
    Inv source length (after source chunk length rounds) := by
  induction rounds with
  | zero => exact ⟨by simp [after], by simp [after], by simp [after]⟩
  | succ rounds ih =>
      rw [after_succ]
      exact ih.round

/-- As long as the reads have not come to the announced length, every round reads. -/
theorem position_after {rounds : ℕ} (h : ∀ k < rounds, source.position chunk k ≠ length) :
    (after source chunk length rounds).position = source.position chunk rounds := by
  induction rounds with
  | zero => rfl
  | succ rounds ih =>
      have hposition := ih fun k hk ↦ h k (Nat.lt_succ_of_lt hk)
      have hadd := (inv_after source chunk length rounds).length_add
      have hne := h rounds (Nat.lt_succ_self rounds)
      rw [after_succ, round, if_neg (by omega), Source.position, hposition]

theorem length_after_eq_zero_iff (rounds : ℕ) : (after source chunk length rounds).length = 0 ↔
    (after source chunk length rounds).position = length := by
  have hadd := (inv_after source chunk length rounds).length_add
  omega

/-- The loop stays where it ends. -/
theorem after_eq_of_le {rounds more : ℕ} (hzero : (after source chunk length rounds).length = 0)
    (hle : rounds ≤ more) : after source chunk length more = after source chunk length rounds := by
  induction more, hle using Nat.le_induction with
  | base => rfl
  | succ more _ ih => rw [after_succ, ih, round, if_pos hzero]

theorem position_mono (n : ℕ) : Monotone (source.position n) :=
  monotone_nat_of_le_succ fun _ ↦ Nat.le_add_right _ _

theorem write_eq_some_iff {rounds : ℕ} : write source chunk length rounds = some l ↔
    (after source chunk length rounds).length = 0 ∧ after source chunk length rounds = l := by
  rw [write]
  split
  · rename_i h
    simp [h]
  · rename_i h
    simp [h]

theorem arrives_of_ends {rounds : ℕ} (h : (after source chunk length rounds).length = 0) :
    Arrives source chunk length := by
  by_contra hnot
  apply hnot
  refine ⟨rounds, ?_⟩
  rw [← position_after fun k _ hk ↦ hnot ⟨k, hk⟩]
  exact (length_after_eq_zero_iff rounds).mp h

theorem Arrives.sendsAnnounced (h : Arrives source chunk length) :
    SendsAnnounced source chunk length length := by
  -- the first read after which the announced length has been returned
  classical
  have hfirst := Nat.find_spec h
  set k := Nat.find h with hk
  have hbefore : ∀ j < k, source.position chunk j ≠ length := fun j hj ↦ Nat.find_min h hj
  have hposition := (position_after hbefore).trans hfirst
  have hzero := (length_after_eq_zero_iff k).mpr hposition
  have hlength : ∀ rounds, (after source chunk length rounds).written.flatten.length =
      (after source chunk length rounds).position := by
    intro rounds
    have hinv := inv_after source chunk length rounds
    rw [hinv.written, hinv.length_take]
  constructor
  · exact ⟨k, _, write_eq_some_iff.mpr ⟨hzero, rfl⟩⟩
  · intro rounds l hwrite
    obtain ⟨hrounds, rfl⟩ := write_eq_some_iff.mp hwrite
    have hend := (length_after_eq_zero_iff rounds).mp hrounds
    refine ⟨?_, (hlength rounds).trans hend⟩
    rw [(inv_after source chunk length rounds).written, hend]
  · intro rounds
    rw [hlength]
    obtain hle | hge := le_total rounds k
    · rw [position_after fun j hj ↦ hbefore j (hj.trans_le hle)]
      exact (position_mono chunk hle).trans hfirst.le
    · rw [after_eq_of_le hzero hge]
      exact hposition.le

/-- With reads that are never short, the source ends just there, or it goes on and
the length is a multiple of the chunk size. -/
theorem arrives_iff_of_full (hchunk : 0 < chunk) (hfull : ∀ position n, source.amount position n = n) :
    Arrives source chunk length ↔ (source.contents.take length).length = length ∧
      (chunk ∣ length ∨ (source.contents.take (length + 1)).length = length) := by
  have hposition : ∀ k, source.position chunk k = (source.contents.take (k * chunk)).length := by
    intro k
    induction k with
    | zero => simp [Source.position]
    | succ k ih =>
        have htake := take_length_take_add source.contents (k * chunk) chunk
        rw [take_add, take_length_take] at htake
        rw [Source.position, ih, Source.read, hfull, ← List.length_append, htake, Nat.succ_mul]
  constructor
  · rintro ⟨k, hk⟩
    rw [hposition] at hk
    have hlength : (source.contents.take length).length = length := by
      rw [← hk, take_length_take]
    refine ⟨hlength, ?_⟩
    have hle : length ≤ k * chunk := hk ▸ Seq.length_take_le
    obtain heq | hlt := hle.eq_or_lt
    · exact .inl (heq ▸ Nat.dvd_mul_left chunk k)
    · have hmin := length_take_eq_min source.contents (Nat.succ_le_of_lt hlt)
      rw [hk] at hmin
      exact .inr (hmin.trans (Nat.min_eq_right (Nat.le_succ length)))
  · rintro ⟨hlength, ⟨k, rfl⟩ | hends⟩
    · exact ⟨k, by rw [hposition, Nat.mul_comm]; exact hlength⟩
    · refine ⟨length + 1, ?_⟩
      have hle : length + 1 ≤ (length + 1) * chunk := Nat.le_mul_of_pos_right _ hchunk
      have hmin := length_take_eq_min source.contents hle
      rw [hposition]
      omega

/-! ## The answer of the device -/

theorem eq_of_acceptDownload {accepted : ℕ} {r r' : Responses}
    (h : acceptDownload length r = (.ok accepted, r')) : accepted = length := by
  obtain ⟨text, r₁, -, h⟩ := Act.bind_eq_ok_iff.mp h
  obtain ⟨size, r₂, -, h⟩ := Act.bind_eq_ok_iff.mp h
  by_cases hsize : size = length
  · simp [hsize] at h
    exact h.1.symm
  · simp [hsize, Act.andThen] at h

/-! ## The result -/

/-- Once the device has accepted the download, just the announced bytes are sent if
and only if the reads come to a point where they have returned just as many. -/
theorem sendsAnnounced_iff {accepted : ℕ} {r r' : Responses}
    (haccepted : acceptDownload length r = (.ok accepted, r')) :
    SendsAnnounced source chunk accepted length ↔ Arrives source chunk length := by
  obtain rfl := eq_of_acceptDownload haccepted
  constructor
  · rintro ⟨⟨rounds, l, hwrite⟩, -, -⟩
    exact arrives_of_ends (write_eq_some_iff.mp hwrite).1
  · exact Arrives.sendsAnnounced

/-- Data in memory is sent whole. -/
theorem arrives_inMemory (hchunk : 0 < chunk) (data : List UInt8) :
    Arrives (.inMemory data) chunk data.length := by
  apply (arrives_iff_of_full hchunk fun _ _ ↦ rfl).mpr
  simp [Source.inMemory, take_ofList]

/-- A download without a length ends once the device has accepted it, and sends
everything that there is. -/
theorem download_zero (hchunk : 0 < chunk) {data : List UInt8} {accepted : ℕ} {text : List Char}
    {r r' r'' : Responses} (haccepted : acceptDownload data.length r = (.ok accepted, r'))
    (hokay : acceptResponses "OKAY".toList r'.unread r' = (.ok text, r'')) :
    ∃ rounds l, download source data chunk 0 rounds r = some (.ok (text, l), r'') ∧
      l.written.flatten = data := by
  obtain rfl := eq_of_acceptDownload haccepted
  have hsends := (arrives_inMemory hchunk data).sendsAnnounced
  obtain ⟨rounds, l, hwrite⟩ := hsends.ends
  refine ⟨rounds, l, ?_, ?_⟩
  · simp only [download, if_true, handleDataSending, haccepted, hwrite, Option.map_some, hokay]
  · rw [(hsends.exact rounds l hwrite).1, Source.inMemory, take_ofList, List.take_length]

end Loops

/-- What the device answers to the announcement of one byte. -/
def acceptsOne : Responses := { unread := ["DATA00000001".toList] }

theorem acceptDownload_acceptsOne : acceptDownload 1 acceptsOne = (.ok 1, { unread := [] }) := by
  rfl

theorem sendsAnnounced_one_iff :
    SendsAnnounced (.inMemory [1]) 1024 1 1 ↔ Arrives (.inMemory [1]) 1024 1 :=
  sendsAnnounced_iff acceptDownload_acceptsOne

/-- A source of two bytes is sent whole after one byte was announced and accepted. -/
theorem not_sendsAnnounced_two :
    acceptDownload 1 acceptsOne = (.ok 1, { unread := [] }) ∧
      ¬SendsAnnounced (.inMemory [1, 2]) 1024 1 1 := by
  refine ⟨acceptDownload_acceptsOne, ?_⟩
  intro hsends
  have hread : (Source.inMemory [1, 2]).read 0 1024 = [1, 2] := by
    simp [Source.read, Source.inMemory]
  have hwritten : (after (.inMemory [1, 2]) 1024 1 1).written = [[1, 2]] := by
    simp [after, round, hread]
  have hle := hsends.bounded 1
  rw [hwritten] at hle
  exact absurd hle (by decide)

end OpenHtf.Fastboot
