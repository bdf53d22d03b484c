import OpenHtf.Record

/-!
# Formatting with `%`

`template % args` of the language, which log messages are made with: the template is read
character by character, and each conversion takes the next argument, or one by its key if
the arguments are a mapping.  Templates and texts are lists of any kind of character, so
that a character may carry more than what it reads as.
-/

set_option autoImplicit false

namespace OpenHtf.PercentFormat

/-- Characters: what they read as, the one for a character that the formatting brings in,
and the text that a list of them stands for. -/
class Glyph (α : Type) where
  char : α → Char
  ofChar : Char → α
  render : List α → List Char

instance : Glyph Char where
  char c := c
  ofChar c := c
  render s := s

def typeError (message : String) : PyExc := .ofClass .TypeError message

def valueError (message : String) : PyExc := .ofClass .ValueError message

/-! ## Reading a template -/

/-- A width or a precision; `star` is one that an argument gives. -/
inductive Count where
  | none
  | number (n : ℕ)
  | star
  deriving DecidableEq

/-- The number with one more digit. -/
def Count.digit (c : Char) : Count → Count
  | number n => number (n * 10 + (c.toNat - '0'.toNat))
  | _ => number (c.toNat - '0'.toNat)

structure Head where
  flags : List Char := []
  width : Count := .none
  precision : Count := .none

/-- The part of a conversion that was read last, in the order they have. -/
inductive Phase where
  | start | flags | width | afterWidth | point | precision | afterPrecision | length
  deriving DecidableEq

def Phase.rank : Phase → ℕ
  | start => 0
  | flags => 1
  | width => 2
  | afterWidth => 3
  | point => 4
  | precision => 5
  | afterPrecision => 6
  | length => 7

/-- What a character of a conversion does: it is the second one of `%%`, a key begins, the
conversion goes on, or this is its type. -/
inductive SpecStep where
  | percent
  | key
  | more (phase : Phase) (head : Head)
  | done

def specStep (phase : Phase) (head : Head) (c : Char) : SpecStep :=
  if c = '%' ∧ phase = .start then .percent
  else if c = '(' ∧ phase = .start then .key
  else if c ∈ ['-', '+', ' ', '#', '0'] ∧ phase.rank ≤ Phase.flags.rank then
    .more .flags { head with flags := c :: head.flags }
  else if c = '*' ∧ phase.rank ≤ Phase.flags.rank then
    .more .afterWidth { head with width := .star }
  else if c.isDigit ∧ phase.rank ≤ Phase.width.rank then
    .more .width { head with width := head.width.digit c }
  else if c = '.' ∧ phase.rank ≤ Phase.afterWidth.rank then
    .more .point { head with precision := .number 0 }
  else if c = '*' ∧ phase = .point then
    .more .afterPrecision { head with precision := .star }
  else if c.isDigit ∧ (phase = .point ∨ phase = .precision) then
    .more .precision { head with precision := head.precision.digit c }
  else if c ∈ ['h', 'l', 'L'] ∧ phase.rank ≤ Phase.afterPrecision.rank then .more .length head
  else .done

structure Conversion (α : Type) where
  key : Option (List α)
  head : Head
  type : Char

/-- The parts of a template; at `bad` its reading fails. -/
inductive Token (α : Type) where
  | lit (a : α)
  | conv (conversion : Conversion α)
  | bad (e : PyExc)

/-- Where the reading of a template is: in its text, in a key and how many parentheses
deep, or in the rest of a conversion. -/
inductive Scan (α : Type) where
  | text
  | key (depth : ℕ) (key : List α)
  | spec (phase : Phase) (key : Option (List α)) (head : Head)

variable {α O : Type} [Glyph α]

open Glyph

/-- A parenthesis in a key is part of it if it is not the one that closes the key. -/
def keyStep (depth : ℕ) (key : List α) (a : α) : Scan α :=
  if char a = '(' then .key (depth + 1) (key ++ [a])
  else if char a = ')' then
    match depth with
    | 0 => .spec .flags (some key) {}
    | depth + 1 => .key depth (key ++ [a])
  else .key depth (key ++ [a])

def tokenize : Scan α → List α → List (Token α)
  | .text, [] => []
  | .key _ _, [] => [.bad (valueError "incomplete format key")]
  | .spec _ _ _, [] => [.bad (valueError "incomplete format")]
  | .text, a :: rest =>
      if char a = '%' then tokenize (.spec .start none {}) rest else .lit a :: tokenize .text rest
  | .key depth key, a :: rest => tokenize (keyStep depth key a) rest
  | .spec phase key head, a :: rest =>
      match specStep phase head (char a) with
      | .percent => .lit a :: tokenize .text rest
      | .key => tokenize (.key 0 []) rest
      | .more phase head => tokenize (.spec phase key head) rest
      | .done => .conv ⟨key, head, char a⟩ :: tokenize .text rest

section Spec

variable {phase : Phase} {key : Option (List α)} {head : Head} {a : α} {rest : List α}

theorem tokenize_percent (h : specStep phase head (char a) = .percent) :
    tokenize (.spec phase key head) (a :: rest) = .lit a :: tokenize .text rest := by
  rw [tokenize, h]

theorem tokenize_key (h : specStep phase head (char a) = .key) :
    tokenize (.spec phase key head) (a :: rest) = tokenize (.key 0 []) rest := by
  rw [tokenize, h]

theorem tokenize_more {phase' : Phase} {head' : Head}
    (h : specStep phase head (char a) = .more phase' head') :
    tokenize (.spec phase key head) (a :: rest) = tokenize (.spec phase' key head') rest := by
  rw [tokenize, h]

theorem tokenize_done (h : specStep phase head (char a) = .done) :
    tokenize (.spec phase key head) (a :: rest) =
      .conv ⟨key, head, char a⟩ :: tokenize .text rest := by
  rw [tokenize, h]

end Spec

/-! ## Arguments -/

/-- A string, or another object. -/
inductive Arg (α O : Type) where
  | text (t : List α)
  | object (o : O)

/-- The arguments of a template; a mapping is its items and the object itself. -/
inductive Args (α O : Type) where
  | tuple (args : List (Arg α O))
  | mapping (items : List (Arg α O × Arg α O)) (object : O)

/-- What is left of the arguments: of a tuple those not taken yet, of a mapping the one
that a conversion would take next. -/
inductive Given (α O : Type) where
  | tuple (rest : List (Arg α O))
  | mapping (items : List (Arg α O × Arg α O)) (next : Option (Arg α O))

def Args.start : Args α O → Given α O
  | tuple args => .tuple args
  | mapping items object => .mapping items (some (.object object))

namespace Given

def nextArg : Given α O → Except PyExc (Arg α O × Given α O)
  | tuple (arg :: rest) => .ok (arg, tuple rest)
  | mapping items (some arg) => .ok (arg, mapping items none)
  | _ => .error (typeError "not enough arguments for format string")

/-- Whether an argument is the string that a key reads as. -/
def isKey (key : List Char) : Arg α O → Bool
  | .text t => render t == key
  | .object _ => false

def useKey : Option (List α) → Given α O → Except PyExc (Given α O)
  | none, given => .ok given
  | some _, tuple _ => .error (typeError "format requires a mapping")
  | some key, mapping items _ =>
      match items.find? fun item ↦ isKey (render key) item.1 with
      | some item => .ok (mapping items (some item.2))
      | none => .error (.ofClass .KeyError (String.ofList (render key)))

/-- Positional arguments must all be taken. -/
def finish : Given α O → Except PyExc Unit
  | tuple (_ :: _) => .error (typeError "not all arguments converted during string formatting")
  | _ => .ok ()

end Given

/-! ## Converting an argument -/

/-- A conversion whose width and precision are known; no width is the width 0. -/
structure Directive where
  flags : List Char
  width : ℕ
  precision : Option ℕ
  type : Char

namespace Directive

/-- A negative width is one to the left, a negative precision is none at all. -/
def make (head : Head) (width precision : Option ℤ) (type : Char) : Directive where
  flags := if width.any (· < 0) then '-' :: head.flags else head.flags
  width := (width.getD 0).natAbs
  precision := precision.map Int.toNat
  type := type

def cut (d : Directive) (s : List Char) : List Char :=
  match d.precision with
  | some n => s.take n
  | none => s

def pad (d : Directive) (s : List Char) : List Char :=
  let spaces := List.replicate (d.width - s.length) ' '
  if '-' ∈ d.flags then s ++ spaces else spaces ++ s

/-- The conversion is `%s` and changes nothing of a string of this length. -/
def inserts (d : Directive) (length : ℕ) : Bool :=
  d.type == 's' && d.precision.isNone && d.width ≤ length

end Directive

/-- The objects that are passed: an integer for a `*`, what a conversion makes of one that
is no string, and `repr` and `ascii` of a string. -/
structure Objects (O : Type) where
  toInt : O → Option ℤ
  convert : Directive → O → Except PyExc (List Char)
  repr : List Char → List Char
  ascii : List Char → List Char

variable (py : Objects O)

/-- What a conversion makes of a string. -/
def textConversion (d : Directive) (s : List Char) : Except PyExc (List Char) :=
  match d.type with
  | 's' => .ok (d.pad (d.cut s))
  | 'r' => .ok (d.pad (d.cut (py.repr s)))
  | 'a' => .ok (d.pad (d.cut (py.ascii s)))
  | 'c' => if s.length = 1 then .ok (d.pad s) else .error (typeError "%c requires int or char")
  | _ => .error (typeError "a number is required, not str")

/-- A string that is inserted keeps its characters. -/
def convertText (d : Directive) (t : List α) : Except PyExc (List α) :=
  if d.inserts t.length then .ok t
  else (fun s ↦ s.map ofChar) <$> textConversion py d (render t)

def convert (d : Directive) (arg : Arg α O) : Except PyExc (List α) :=
  if d.type ∈ ['d', 'i', 'o', 'u', 'x', 'X', 'e', 'E', 'f', 'F', 'g', 'G', 'c', 'r', 's', 'a'] then
    match arg with
    | .text t => convertText py d t
    | .object o => (fun s ↦ s.map ofChar) <$> py.convert d o
  else .error (valueError "unsupported format character")

def takeCount : Count → Given α O → Except PyExc (Option ℤ × Given α O)
  | .none, given => .ok (none, given)
  | .number n, given => .ok (some n, given)
  | .star, given => do
      let (arg, given) ← given.nextArg
      match arg with
      | .object o =>
          match py.toInt o with
          | some n => .ok (some n, given)
          | none => .error (typeError "* wants int")
      | .text _ => .error (typeError "* wants int")

/-- The width and the precision of a conversion, after its key was looked up. -/
def readDirective (c : Conversion α) (given : Given α O) : Except PyExc (Directive × Given α O) := do
  let given ← given.useKey c.key
  let (width, given) ← takeCount py c.head.width given
  let (precision, given) ← takeCount py c.head.precision given
  return (.make c.head width precision c.type, given)

/-- One conversion: what it writes, and what it leaves of the arguments. -/
def runConversion (c : Conversion α) (given : Given α O) : Except PyExc (List α × Given α O) := do
  let (directive, given) ← readDirective py c given
  let (arg, given) ← given.nextArg
  let out ← convert py directive arg
  return (out, given)

def format : List (Token α) → Given α O → Except PyExc (List α)
  | [], given => do
      given.finish
      return []
  | .lit a :: tokens, given => do
      let out ← format tokens given
      return a :: out
  | .conv c :: tokens, given => do
      let (written, given) ← runConversion py c given
      let out ← format tokens given
      return written ++ out
  | .bad e :: _, _ => .error e

/-- `template % args`. -/
def percent (template : List α) (args : Args α O) : Except PyExc (List α) :=
  format py (tokenize .text template) args.start

end OpenHtf.PercentFormat
