import OpenHtf.Record

/-!
# String substitution

`util.format_string` and `util.partial_format`, which the names of phases, of the
nodes around them and of measurements go through.  What the arguments are and how
one of them formats itself is a parameter.
-/

set_option autoImplicit false

namespace OpenHtf

/-! ## Texts as lists of characters -/

/-- `re.findall(r'(\x7b(.*?)\x7d)', text)`: what stands between each brace and the first
one that closes it.  `inside` is what was read since the last opening brace, from the
end; a newline is no part of `.*?`, so no tag goes across one. -/
def findTags : Option (List Char) → List Char → List (List Char)
  | _, [] => []
  | none, c :: cs => findTags (if c = '\x7b' then some [] else none) cs
  | some inside, c :: cs =>
      if c = '\x7d' then inside.reverse :: findTags none cs
      else if c = '\n' then findTags none cs
      else findTags (some (c :: inside)) cs

/-- `text.replace(old, new)`, where `skip` characters of an occurrence of `old` are
still to come. -/
def replaceFrom (old new : List Char) : ℕ → List Char → List Char
  | _, [] => []
  | skip + 1, _ :: cs => replaceFrom old new skip cs
  | 0, c :: cs =>
      if old.isPrefixOf (c :: cs) then new ++ replaceFrom old new (old.length - 1) cs
      else c :: replaceFrom old new 0 cs

/-- The tag with the given text between its braces. -/
def tagOf (var : List Char) : List Char := '\x7b' :: var ++ ['\x7d']

/-- The argument that a tag begins with, before dot or dict notation. -/
def rootOf (var : List Char) : List Char := (var.takeWhile (· ≠ '.')).takeWhile (· ≠ '[')

/-! ## The objects that are passed -/

/-- The objects of user code, as far as the framework asks them anything: `V` are the
arguments and the plug classes, `W` the validators. -/
structure UserObjects (V W : Type) where
  /-- `tag.format(root=value)`. -/
  format : List Char → List Char → V → Except PyExc (List Char)
  /-- `target % kwargs`. -/
  percent : String → List (String × V) → Except PyExc String
  /-- `issubclass(sub, cls)`. -/
  issubclass : V → V → Except PyExc Bool
  /-- `cls` defines `auto_placeholder` itself, and it is true. -/
  autoPlaceholder : V → Bool
  /-- The method `with_args` of a validator, if it has one. -/
  withArgs : W → Option (List (String × V) → Except PyExc W)
  /-- `inflection.camelize`. -/
  camelize : String → String

variable {V W : Type} (py : UserObjects V W)

/-- The tags are those of the text before the first substitution. -/
def UserObjects.partialFormatTags (kwargs : List (String × V)) :
    List (List Char) → List Char → Except PyExc (List Char)
  | [], output => .ok output
  | var :: vars, output =>
      match kwargs.lookup (String.ofList (rootOf var)) with
      | none => UserObjects.partialFormatTags kwargs vars output
      | some value => do
          let formatted ← py.format (tagOf var) (rootOf var) value
          UserObjects.partialFormatTags kwargs vars (replaceFrom (tagOf var) formatted 0 output)

/-- `partial_format`; its own parameter is called `target`, so no argument can be. -/
def UserObjects.partialFormat (target : String) (kwargs : List (String × V)) :
    Except PyExc String :=
  if (kwargs.lookup "target").isSome then
    .error (.ofClass .TypeError "partial_format() got multiple values for argument 'target'")
  else
    String.ofList <$> py.partialFormatTags kwargs (findTags none target.toList) target.toList

/-- `format_string` of a text. -/
def UserObjects.formatText (kwargs : List (String × V)) (target : String) : Except PyExc String :=
  if '\x7b' ∈ target.toList then py.partialFormat target kwargs
  else if '%' ∈ target.toList then py.percent target kwargs
  else .ok target

/-- A name that may be left out, and the name of a phase, which may be computed. -/
inductive FormatTarget (V : Type) where
  | none
  | callable (target : List (String × V) → Except PyExc String)
  | text (target : String)

/-- `format_string`. -/
def UserObjects.formatString (kwargs : List (String × V)) :
    FormatTarget V → Except PyExc (FormatTarget V)
  | .none => .ok .none
  | .callable target => .text <$> target kwargs
  | .text target => .text <$> py.formatText kwargs target

/-- `format_string` of a text or `None`. -/
def UserObjects.formatOptional (kwargs : List (String × V)) : Option String → Except PyExc (Option String)
  | none => .ok none
  | some target => some <$> py.formatText kwargs target

/-! ## What is left as it is -/

variable {py} {kwargs : List (String × V)}

/-- Only arguments that are passed are substituted. -/
theorem partialFormatTags_of_unknown {vars : List (List Char)} {output : List Char}
    (h : ∀ var ∈ vars, kwargs.lookup (String.ofList (rootOf var)) = none) :
    py.partialFormatTags kwargs vars output = .ok output := by
  induction vars with
  | nil => rfl
  | cons var vars ih =>
      rw [UserObjects.partialFormatTags, h var List.mem_cons_self]
      apply ih
      intro var' hvar'
      exact h var' (List.mem_cons_of_mem _ hvar')

/-- A text in which no argument is mentioned in braces is kept, whatever else is in
braces there. -/
theorem formatText_of_unknown {target : String} (hbrace : '\x7b' ∈ target.toList)
    (htarget : kwargs.lookup "target" = none)
    (h : ∀ var ∈ findTags none target.toList, kwargs.lookup (String.ofList (rootOf var)) = none) :
    py.formatText kwargs target = .ok target := by
  rw [UserObjects.formatText, if_pos hbrace, UserObjects.partialFormat, htarget, if_neg (by simp),
    partialFormatTags_of_unknown h]
  exact congrArg Except.ok String.ofList_toList

theorem formatText_plain {target : String} (hbrace : '\x7b' ∉ target.toList)
    (hpercent : '%' ∉ target.toList) : py.formatText kwargs target = .ok target := by
  rw [UserObjects.formatText, if_neg hbrace, if_neg hpercent]

end OpenHtf
