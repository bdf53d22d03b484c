import Mathlib.Logic.Function.Basic
import OpenHtf.Lib.Action
import OpenHtf.Record

/-!
# Writing a test record to a file

`output.callbacks.Atomic` and `OutputToFile`: the record is serialized into a
temporary file, and closing that file moves it to its place.
-/

set_option autoImplicit false

namespace OpenHtf.OutputToFile

open Act

/-! ## Data -/

abbrev Bytes := List UInt8

/-- A character of a Python string; a surrogate stands for itself only. -/
inductive CodePoint where
  | char (c : Char)
  | surrogate (n : ℕ)
  deriving DecidableEq

/-- `str.encode` with UTF-8. -/
def encode : List CodePoint → Except PyExc Bytes
  | [] => .ok []
  | .char c :: rest => (String.utf8EncodeChar c ++ ·) <$> encode rest
  | .surrogate _ :: _ => .error (.ofClass (.user "UnicodeEncodeError") "surrogates not allowed")

/-- What is passed to `write`. -/
inductive Data where
  | text (t : List CodePoint)
  | bytes (b : Bytes)
  | other (typeName : String)
  deriving DecidableEq

/-- The next chunk of a stream, or the exception that `next` raises. -/
inductive Item where
  | chunk (d : Data)
  | raises (e : PyExc)
  deriving DecidableEq

inductive SerializedRecord where
  | text (t : List CodePoint)
  | bytes (b : Bytes)
  | iterable (items : List Item)
  | other (typeName : String)
  deriving DecidableEq

/-! ## Files -/

/-- Files by their names, temporary files by the order of their making, and what has
been written to file objects.  The name of a temporary file is not one that a test
record is written to. -/
structure Disk where
  files : String → Option Bytes := fun _ ↦ none
  temps : ℕ → Option Bytes := fun _ ↦ none
  tempsMade : ℕ := 0
  fileObjects : ℕ → Bytes := fun _ ↦ []
  writes : ℕ := 0

/-- How `shutil.move` ends.  It copies the file when it cannot rename it, and may have
copied so many bytes when it raises. -/
inductive Move where
  | done
  | raises (e : PyExc) (copied : Option ℕ)

/-- A string with placeholders, or a callable. -/
inductive Pattern (Dict : Type) where
  | text (s : String)
  | callable (f : Dict → Except PyExc String)

/-- The functions that a callback uses, and where the operating system raises: the
number of bytes that a write has written before. -/
structure Env (Record Dict : Type) where
  convertToBaseTypes : Record → List String → Except PyExc Dict
  formatString : String → Dict → Except PyExc String
  namedTemporaryFile : Option PyExc := none
  write : ℕ → Bytes → Option (PyExc × ℕ) := fun _ _ ↦ none
  close : Option PyExc := none
  move : Move := .done

/-- A statement of the callback. -/
abbrev Output := Act Disk PyExc

section

variable {Record Dict : Type} (env : Env Record Dict)

def writeBytes (b : Bytes) (append : Bytes → Disk → Disk) : Output Unit := do
  let n ← Act.gets (·.writes)
  match env.write n b with
  | none => Act.modify fun d ↦ { append b d with writes := n + 1 }
  | some (e, k) =>
    Act.modify fun d ↦ { append (b.take k) d with writes := n + 1 }
    Act.raise e

/-- `write` of a binary file. -/
def writeBinary (append : Bytes → Disk → Disk) : Data → Output Unit
  | .text _ => Act.raise (.ofClass .TypeError "a bytes-like object is required, not 'str'")
  | .bytes b => writeBytes env b append
  | .other typeName =>
    Act.raise (.ofClass .TypeError s!"a bytes-like object is required, not '{typeName}'")

namespace Disk

def appendTemp (temp : ℕ) (b : Bytes) (d : Disk) : Disk :=
  { d with temps := Function.update d.temps temp ((d.temps temp).map (· ++ b)) }

def appendFileObject (file : ℕ) (b : Bytes) (d : Disk) : Disk :=
  { d with fileObjects := Function.update d.fileObjects file (d.fileObjects file ++ b) }

end Disk

structure Atomic where
  filename : String
  temp : ℕ
  deriving DecidableEq

namespace Atomic

def init (filename : String) : Output Atomic := do
  match env.namedTemporaryFile with
  | some e => Act.raise e
  | none =>
    let temp ← Act.gets (·.tempsMade)
    Act.modify fun d ↦
      { d with temps := Function.update d.temps temp (some []), tempsMade := temp + 1 }
    pure ⟨filename, temp⟩

def write (a : Atomic) : Data → Output Unit
  | .text t => do
    let b ← Act.ofExcept (encode t)
    writeBinary env (Disk.appendTemp a.temp) (.bytes b)
  | d => writeBinary env (Disk.appendTemp a.temp) d

/-- `shutil.move` of the temporary file. -/
def move (a : Atomic) : Output Unit := do
  match ← Act.gets (·.temps a.temp) with
  | none => Act.raise (.ofClass (.user "FileNotFoundError") "No such file or directory")
  | some content =>
    match env.move with
    | .done =>
      Act.modify fun d ↦
        { d with
          files := Function.update d.files a.filename (some content)
          temps := Function.update d.temps a.temp none }
    | .raises e none => Act.raise e
    | .raises e (some k) =>
      Act.modify fun d ↦ { d with files := Function.update d.files a.filename (some (content.take k)) }
      Act.raise e

def close (a : Atomic) : Output Unit := do
  match env.close with
  | some e => Act.raise e
  | none => a.move env

end Atomic

/-- What `open_output_file` yields. -/
inductive OutFile where
  | atomic (a : Atomic)
  | fileObject (file : ℕ)

def OutFile.write (out : OutFile) (d : Data) : Output Unit :=
  match out with
  | .atomic a => a.write env d
  | .fileObject file => writeBinary env (Disk.appendFileObject file) d

/-! ## The callback -/

def Pattern.isTruthy : Pattern Dict → Bool
  | .text s => s != ""
  | .callable _ => true

end

/-- An `OutputToFile` with its `serialize_test_record`. -/
structure Callback (Record Dict : Type) where
  filenamePattern : Option (Pattern Dict) := none
  outputFile : Option ℕ := none
  serializeTestRecord : Record → Except PyExc SerializedRecord

namespace Callback

variable {Record Dict : Type}

/-- The constructor on a string, a callable or a file object. -/
def init (filenamePatternOrFile : Pattern Dict ⊕ ℕ)
    (serializeTestRecord : Record → Except PyExc SerializedRecord) : Callback Record Dict :=
  match filenamePatternOrFile with
  | .inl pattern => { filenamePattern := some pattern, serializeTestRecord }
  | .inr file => { outputFile := some file, serializeTestRecord }

variable (env : Env Record Dict) (o : Callback Record Dict)

def createFileName (testRec : Record) : Except PyExc String :=
  match o.filenamePattern with
  | none => .error (.ofClass .ValueError
      "filename_pattern must be string or callable to create file name.")
  | some pattern => do
    let recordDict ← env.convertToBaseTypes testRec ["code_info", "phases", "log_records"]
    match pattern with
    | .text s => env.formatString s recordDict
    | .callable f => f recordDict

/-- `with open_output_file(test_rec) as outfile: body`. -/
def withOutputFile (testRec : Record) (body : OutFile → Output Unit) : Output Unit := do
  if o.filenamePattern.any (·.isTruthy) then
    let filename ← Act.ofExcept (o.createFileName env testRec)
    let outputFile ← Atomic.init env filename
    Act.finally' (body (.atomic outputFile)) (outputFile.close env)
  else
    match o.outputFile with
    | some file => body (.fileObject file)
    | none => Act.raise (.ofClass .TypeError
        "filename_pattern must be string, callable, or File-like object")

/-- `outfile.write(chunk.encode() if isinstance(chunk, str) else chunk)`. -/
def writeChunk (out : OutFile) : Data → Output Unit
  | .text t => do
    let b ← Act.ofExcept (encode t)
    out.write env (.bytes b)
  | d => out.write env d

def writeItems (out : OutFile) : List Item → Output Unit
  | [] => pure ()
  | .chunk d :: items => do
    writeChunk env out d
    writeItems out items
  | .raises e :: _ => Act.raise e

def writeSerialized (out : OutFile) : SerializedRecord → Output Unit
  | .text t => do
    let b ← Act.ofExcept (encode t)
    out.write env (.bytes b)
  | .bytes b => out.write env (.bytes b)
  | .iterable items => writeItems env out items
  | .other typeName =>
    Act.raise (.ofClass .TypeError s!"Expected string or iterable but got {typeName}.")

/-- `OutputToFile.__call__`. -/
def call (testRec : Record) : Output Unit :=
  o.withOutputFile env testRec fun outfile ↦ do
    let serializedRecord ← Act.ofExcept (o.serializeTestRecord testRec)
    writeSerialized env outfile serializedRecord

end Callback

/-! ## What is written -/

/-- What one chunk comes to: its bytes, or the exception that it ends the stream with. -/
def Item.piece : Item → Except PyExc Bytes
  | .chunk (.text t) => encode t
  | .chunk (.bytes b) => .ok b
  | .chunk (.other typeName) =>
    .error (.ofClass .TypeError s!"a bytes-like object is required, not '{typeName}'")
  | .raises e => .error e

/-- The chunks of a serialized record. -/
def SerializedRecord.pieces : SerializedRecord → List (Except PyExc Bytes)
  | .text t => [encode t]
  | .bytes b => [.ok b]
  | .iterable items => items.map Item.piece
  | .other typeName =>
    [.error (.ofClass .TypeError s!"Expected string or iterable but got {typeName}.")]

def serializedPieces : Except PyExc SerializedRecord → List (Except PyExc Bytes)
  | .ok s => s.pieces
  | .error e => [.error e]

section

variable {Record Dict : Type} (env : Env Record Dict)

/-- What gets into the file before something raises, and whether nothing does; `n`
counts the writes. -/
def written : ℕ → List (Except PyExc Bytes) → Bytes × Bool
  | _, [] => ([], true)
  | _, .error _ :: _ => ([], false)
  | n, .ok b :: pieces =>
    match env.write n b with
    | none => (b ++ (written (n + 1) pieces).1, (written (n + 1) pieces).2)
    | some (_, k) => (b.take k, false)

/-- The temporary file `temp` has grown by these bytes. -/
structure Grown (temp : ℕ) (b : Bytes) (d d' : Disk) : Prop where
  files : d'.files = d.files
  temps : d'.temps temp = (d.temps temp).map (· ++ b)

theorem Grown.refl (temp : ℕ) (d : Disk) : Grown temp [] d d := ⟨rfl, by simp⟩

theorem Grown.trans {temp : ℕ} {b b' : Bytes} {d d₁ d₂ : Disk} (h : Grown temp b d d₁)
    (h' : Grown temp b' d₁ d₂) : Grown temp (b ++ b') d d₂ := by
  refine ⟨h'.files.trans h.files, ?_⟩
  rw [h'.temps, h.temps, Option.map_map]
  congr 1
  funext c
  exact List.append_assoc c b b'

/-- A statement writes the pieces that are written before something raises, and raises
if something does. -/
def Writes (temp : ℕ) (pieces : List (Except PyExc Bytes)) (x : Output Unit) : Prop :=
  ∀ d : Disk, wp x
    (fun _ d' ↦ (written env d.writes pieces).2 = true ∧ d'.writes = d.writes + pieces.length ∧
      Grown temp (written env d.writes pieces).1 d d')
    (fun _ d' ↦ (written env d.writes pieces).2 = false ∧ Grown temp (written env d.writes pieces).1 d d') d

variable {env} {temp : ℕ}

theorem written_cons {n : ℕ} (piece : Except PyExc Bytes) (pieces : List (Except PyExc Bytes)) :
    written env n (piece :: pieces) =
      if (written env n [piece]).2 then
        ((written env n [piece]).1 ++ (written env (n + 1) pieces).1, (written env (n + 1) pieces).2)
      else written env n [piece] := by
  cases piece with
  | error e => rfl
  | ok b => cases hw : env.write n b <;> simp [written, hw]

theorem writes_nil : Writes env temp [] (pure ()) := fun d ↦ ⟨rfl, rfl, .refl temp d⟩

theorem writes_raise (e e' : PyExc) : Writes env temp [.error e] (Act.raise e') :=
  fun d ↦ ⟨rfl, .refl temp d⟩

theorem Writes.cons {piece : Except PyExc Bytes} {pieces : List (Except PyExc Bytes)}
    {x y : Output Unit} (hx : Writes env temp [piece] x) (hy : Writes env temp pieces y) :
    Writes env temp (piece :: pieces) (x >>= fun _ ↦ y) := by
  intro d
  rw [wp_bind]
  refine (hx d).mono ?_ ?_
  · rintro - d₁ ⟨hall, hn, hgrown⟩
    have hn : d₁.writes = d.writes + 1 := hn
    rw [written_cons, if_pos hall, ← hn]
    refine (hy d₁).mono ?_ ?_
    · rintro - d₂ ⟨hrest, hn₂, hgrown₂⟩
      refine ⟨hrest, ?_, hgrown.trans hgrown₂⟩
      rw [hn₂, hn, List.length_cons]
      omega
    · exact fun _ d₂ ⟨hrest, hgrown₂⟩ ↦ ⟨hrest, hgrown.trans hgrown₂⟩
  · rintro e d₁ ⟨hraised, hgrown⟩
    rw [written_cons, if_neg (Bool.eq_false_iff.mp hraised)]
    exact ⟨hraised, hgrown⟩

theorem writes_bytes (b : Bytes) : Writes env temp [.ok b] (writeBytes env b (Disk.appendTemp temp)) := by
  intro d
  simp only [writeBytes, wp_bind, wp_gets]
  cases hw : env.write d.writes b with
  | none =>
      refine ⟨?_, rfl, rfl, ?_⟩
      · simp [written, hw]
      · simp [written, hw, Disk.appendTemp]
  | some r =>
      obtain ⟨e, k⟩ := r
      refine ⟨?_, rfl, ?_⟩
      · simp [written, hw]
      · simp [written, hw, Disk.appendTemp]

/-- A text is encoded as a whole before any of it is written. -/
theorem writes_encoded {a : Atomic} (t : List CodePoint) :
    Writes env a.temp [encode t] (do
      let b ← Act.ofExcept (encode t)
      (OutFile.atomic a).write env (.bytes b)) := by
  cases encode t with
  | error e => exact writes_raise e e
  | ok b => exact writes_bytes b

theorem writes_chunk {a : Atomic} (d : Data) :
    Writes env a.temp [(Item.chunk d).piece] (Callback.writeChunk env (.atomic a) d) := by
  cases d with
  | text t => exact writes_encoded t
  | bytes b => exact writes_bytes b
  | other typeName => exact writes_raise _ _

theorem writes_items {a : Atomic} (items : List Item) :
    Writes env a.temp (items.map Item.piece) (Callback.writeItems env (.atomic a) items) := by
  induction items with
  | nil => exact writes_nil
  | cons item items ih =>
      cases item with
      | chunk d => exact (writes_chunk d).cons ih
      | raises e => exact fun d ↦ ⟨rfl, .refl a.temp d⟩

theorem writes_serialized {a : Atomic} (r : Except PyExc SerializedRecord) :
    Writes env a.temp (serializedPieces r) (do
      let serializedRecord ← Act.ofExcept r
      Callback.writeSerialized env (.atomic a) serializedRecord) := by
  cases r with
  | error e => exact writes_raise e e
  | ok s =>
      cases s with
      | text t => exact writes_encoded t
      | bytes b => exact writes_bytes b
      | iterable items => exact writes_items items
      | other typeName => exact writes_raise _ _

/-! ## All or nothing -/

theorem written_all {n : ℕ} {pieces : List (Except PyExc Bytes)} (h : (written env n pieces).2 = true) :
    ∃ chunks : List Bytes, pieces = chunks.map Except.ok ∧ (written env n pieces).1 = chunks.flatten := by
  induction pieces generalizing n with
  | nil => exact ⟨[], rfl, rfl⟩
  | cons piece pieces ih =>
      cases piece with
      | error e => cases h
      | ok b =>
          rw [written] at h ⊢
          split at h
          · rename_i hw
            obtain ⟨chunks, rfl, hchunks⟩ := ih h
            exact ⟨b :: chunks, rfl, by simp [hchunks]⟩
          · cases h

/-- Closing the file completes. -/
def Env.Completes (env : Env Record Dict) : Prop := env.close = none ∧ env.move = .done

/-- What closing a temporary file with this content puts at the destination. -/
def Env.placed (env : Env Record Dict) (content : Bytes) : Option Bytes :=
  match env.close, env.move with
  | some _, _ => none
  | none, .done => some content
  | none, .raises _ copied => copied.map content.take

/-- The files once these bytes, if any, have been put at the destination. -/
def place (filename : String) (b : Option Bytes) (files : String → Option Bytes) : String → Option Bytes :=
  match b with
  | none => files
  | some b => Function.update files filename (some b)

theorem place_eq_self_iff {filename : String} {b : Option Bytes} {files : String → Option Bytes} :
    place filename b files = files ↔ ∀ content ∈ b, files filename = some content := by
  cases b with
  | none => simp [place]
  | some b => simp [place, eq_comm]

/-- What closing does to the files. -/
theorem close_files {a : Atomic} {d : Disk} {content : Bytes} {Q E : (String → Option Bytes) → Prop}
    (h : d.temps a.temp = some content) :
    wp (a.close env) (fun _ d' ↦ Q d'.files) (fun _ d' ↦ E d'.files) d ↔
      (env.Completes → Q (place a.filename (env.placed content) d.files)) ∧
        (¬env.Completes → E (place a.filename (env.placed content) d.files)) := by
  unfold Atomic.close Atomic.move Env.Completes Env.placed
  cases hclose : env.close with
  | some e => simp [place]
  | none =>
      rcases hmove : env.move with _ | ⟨e, _ | k⟩
      · simp [h, place]
      · simp [h, place]
      · simp [h, place]

/-- A body that writes these pieces, with the temporary file closed after it. -/
theorem finally_close_files {a : Atomic} {d : Disk} {pieces : List (Except PyExc Bytes)}
    {x : Output Unit} {Q E : (String → Option Bytes) → Prop} (hx : Writes env a.temp pieces x)
    (h : d.temps a.temp = some []) :
    wp (finally' x (a.close env)) (fun _ d' ↦ Q d'.files) (fun _ d' ↦ E d'.files) d ↔
      (((written env d.writes pieces).2 = true ∧ env.Completes) →
        Q (place a.filename (env.placed (written env d.writes pieces).1) d.files)) ∧
      (¬((written env d.writes pieces).2 = true ∧ env.Completes) →
        E (place a.filename (env.placed (written env d.writes pieces).1) d.files)) := by
  have hwritten := hx d
  rw [wp_finally]
  unfold wp at hwritten
  have hclose {d' : Disk} (hgrown : Grown a.temp (written env d.writes pieces).1 d d')
      (Q E : (String → Option Bytes) → Prop) :
      wp (a.close env) (fun _ d' ↦ Q d'.files) (fun _ d' ↦ E d'.files) d' ↔
        (env.Completes → Q (place a.filename (env.placed (written env d.writes pieces).1) d.files)) ∧
        (¬env.Completes → E (place a.filename (env.placed (written env d.writes pieces).1) d.files)) := by
    rw [← hgrown.files]
    exact close_files (by rw [hgrown.temps, h]; rfl)
  rcases hr : x d with ⟨e | u, d'⟩
  · rw [hr] at hwritten
    obtain ⟨hraised, hgrown⟩ := hwritten
    rw [wp, hr, hraised]
    refine (hclose hgrown E E).trans ?_
    by_cases hc : env.Completes <;> simp [hc]
  · rw [hr] at hwritten
    obtain ⟨hall, -, hgrown⟩ := hwritten
    rw [wp, hr, hall]
    refine (hclose hgrown Q E).trans ?_
    by_cases hc : env.Completes <;> simp [hc]

end

section

variable {Record Dict : Type}

/-- The destination has all chunks in it, one after the other. -/
def HasAllChunks (env : Env Record Dict) (o : Callback Record Dict) (testRec : Record) (disk : Disk)
    (files : String → Option Bytes) : Prop :=
  ∃ (filename : String) (chunks : List Bytes), o.createFileName env testRec = .ok filename ∧
    serializedPieces (o.serializeTestRecord testRec) = chunks.map Except.ok ∧
    files = Function.update disk.files filename (some chunks.flatten)

/-- The file is as it was when the callback raises, and has all chunks in it when it
returns. -/
def AllOrNothing (env : Env Record Dict) (o : Callback Record Dict) (testRec : Record) (disk : Disk) :
    Prop :=
  wp (o.call env testRec) (fun _ d ↦ HasAllChunks env o testRec disk d.files)
    (fun _ d ↦ d.files = disk.files) disk

/-- If the temporary file is made, then nothing raises after that, or what closing it
puts at the destination is there already. -/
def NothingNew (env : Env Record Dict) (o : Callback Record Dict) (testRec : Record) (disk : Disk) : Prop :=
  o.filenamePattern.any (·.isTruthy) = true → env.namedTemporaryFile = none →
    ∀ filename, o.createFileName env testRec = .ok filename →
      (env.Completes ∧
        (written env disk.writes (serializedPieces (o.serializeTestRecord testRec))).2 = true) ∨
      ∀ content ∈ env.placed (written env disk.writes (serializedPieces (o.serializeTestRecord testRec))).1,
        disk.files filename = some content

theorem allOrNothing_iff (env : Env Record Dict) (pattern : Pattern Dict)
    (serializeTestRecord : Record → Except PyExc SerializedRecord) (testRec : Record) (disk : Disk) :
    AllOrNothing env (.init (.inl pattern) serializeTestRecord) testRec disk ↔
      NothingNew env (.init (.inl pattern) serializeTestRecord) testRec disk := by
  generalize ho : Callback.init (.inl pattern) serializeTestRecord = o
  have hfile : o.outputFile = none := by rw [← ho]; rfl
  unfold AllOrNothing NothingNew Callback.call Callback.withOutputFile
  cases htruthy : o.filenamePattern.any (·.isTruthy) with
  | false => simp [hfile]
  | true =>
      rw [if_pos rfl, wp_bind]
      cases hname : o.createFileName env testRec with
      | error e => simp [wp]
      | ok filename =>
          rw [wp, ofExcept_apply]
          dsimp only
          rw [wp_bind]
          cases hmade : env.namedTemporaryFile with
          | some e => simp [Atomic.init, hmade]
          | none =>
              simp only [Atomic.init, hmade, wp_bind, wp_gets, wp_modify, wp_pure]
              refine (finally_close_files (Q := HasAllChunks env o testRec disk)
                (E := (· = disk.files)) (writes_serialized _) (by simp)).trans ?_
              by_cases hall : env.Completes ∧
                  (written env disk.writes (serializedPieces (o.serializeTestRecord testRec))).2 = true
              · obtain ⟨⟨hclose, hmove⟩, hwritten⟩ := hall
                obtain ⟨chunks, hpieces, hchunks⟩ := written_all hwritten
                refine iff_of_true ⟨fun _ ↦ ⟨filename, chunks, hname, hpieces, ?_⟩, ?_⟩ fun _ _ _ _ ↦ ?_
                · simp [Env.placed, hclose, hmove, place, hchunks]
                · exact fun hnot ↦ absurd ⟨hwritten, hclose, hmove⟩ hnot
                · exact .inl ⟨⟨hclose, hmove⟩, hwritten⟩
              · simp only [and_comm (a := _ = true), hall, false_implies, true_and, not_false_eq_true,
                  true_implies, false_or, place_eq_self_iff, Except.ok.injEq, forall_eq']

theorem AllOrNothing.unchanged {env : Env Record Dict} {o : Callback Record Dict} {testRec : Record}
    {disk : Disk} (h : AllOrNothing env o testRec disk)
    (hraises : (o.call env testRec disk).1.isOk = false) :
    (o.call env testRec disk).2.files = disk.files := by
  unfold AllOrNothing wp at h
  rcases hr : o.call env testRec disk with ⟨e | u, d⟩
  · rw [hr] at h
    exact h
  · rw [hr] at hraises
    cases hraises

end

/-- `OutputToJSON.serialize_test_record`: the record is converted at once, and the
encoder yields its strings one after the other. -/
def serializeToJson {Record Encoded : Type} (convertTestRecordToJson : Record → Except PyExc Encoded)
    (iterencode : Encoded → List Item) (testRec : Record) : Except PyExc SerializedRecord := do
  let encoded ← convertTestRecordToJson testRec
  pure (.iterable (iterencode encoded))

/-- The file names need no values. -/
def plainNames : Env Unit Unit where
  convertToBaseTypes := fun _ _ ↦ .ok ()
  formatString := fun s _ ↦ .ok s

/-- An output of an earlier run is there. -/
def earlierOutput : Disk where
  files := Function.update (fun _ ↦ none) "record" (some [1, 2, 3])

/-- A record that cannot be pickled. -/
def unpicklable : Callback Unit Unit :=
  .init (.inl (.text "record")) fun _ ↦ .error (.ofClass .TypeError "cannot pickle '_thread.lock' object")

/-- A record with a value in it that has no JSON. -/
def unencodable : Callback Unit Unit :=
  .init (.inl (.text "record")) (serializeToJson .ok fun _ ↦
    [.chunk (.text [.char '[']),
      .raises (.ofClass .ValueError "Out of range float values are not JSON compliant")])

/-- The earlier output is replaced by an empty file, or by the first chunk. -/
theorem not_allOrNothing_raised :
    ¬AllOrNothing plainNames unpicklable () earlierOutput ∧
      ¬AllOrNothing plainNames unencodable () earlierOutput := by
  constructor
  · intro h
    have hfile : (unpicklable.call plainNames () earlierOutput).2.files "record" = some [] := by
      decide +kernel
    rw [h.unchanged (by decide +kernel)] at hfile
    exact absurd hfile (by decide)
  · intro h
    have hfile : (unencodable.call plainNames () earlierOutput).2.files "record" = some [91] := by
      decide +kernel
    rw [h.unchanged (by decide +kernel)] at hfile
    exact absurd hfile (by decide)

end OpenHtf.OutputToFile
