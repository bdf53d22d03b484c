import Mathlib.Data.List.Basic
import Mathlib.Data.String.Basic

/-!
# Equality of strings by regular expressions

For a string `validators.equals` makes the regular expression of its escaped
characters between `^` and `$`.  `$` also matches before a newline that ends the
value, so that one more value is accepted than the string itself.
-/

set_option autoImplicit false

namespace OpenHtf.Validators

/-! ## Python's `re`, as far as it is used -/

/-- `re.escape`: the characters that get a backslash. -/
def specialChars : List Char :=
  ['(', ')', '[', ']', '{', '}', '?', '*', '+', '-', '|', '^', '$', '\\', '.', '&', '~', '#', ' ', '\t',
    '\n', '\r', '\x0b', '\x0c']

def escapeChars (cs : List Char) : List Char :=
  cs.flatMap fun c ↦ if c ∈ specialChars then ['\\', c] else [c]

def escape (s : String) : String := String.ofList (escapeChars s.toList)

inductive Item where
  | beginning
  | ending
  | literal (c : Char)
  deriving DecidableEq

/-- What has a meaning of its own in a pattern, besides the backslash, `^` and `$`. -/
def metaChars : List Char := ['.', '[', '{', '(', ')', '*', '+', '?', '|']

/-- The patterns of literals, `^` and `$`; `none` for any other. -/
def parse : List Char → Option (List Item)
  | [] => some []
  | c :: rest =>
    if c = '\\' then
      match rest with
      | [] => none
      | d :: rest => if d.isAlphanum then none else (parse rest).map (.literal d :: ·)
    else if c = '^' then (parse rest).map (.beginning :: ·)
    else if c = '$' then (parse rest).map (.ending :: ·)
    else if c ∈ metaChars then none
    else (parse rest).map (.literal c :: ·)

/-- The items match the rest of a value from the position on, without `MULTILINE`. -/
def matchFrom : List Item → ℕ → List Char → Bool
  | [], _, _ => true
  | .beginning :: items, position, rest => position == 0 && matchFrom items position rest
  | .ending :: items, position, rest => (rest == [] || rest == ['\n']) && matchFrom items position rest
  | .literal _ :: _, _, [] => false
  | .literal c :: items, position, d :: rest => d == c && matchFrom items (position + 1) rest

/-! ## The validators -/

structure RegexMatcher where
  regex : String
  compiled : List Item

/-- `compiled.match(value) is not None`. -/
def RegexMatcher.call (m : RegexMatcher) (value : String) : Bool := matchFrom m.compiled 0 value.toList

def matchesRegex (regex : String) : Option RegexMatcher :=
  (parse regex.toList).map (RegexMatcher.mk regex)

/-- `equals` for a string, and `all_equals`. -/
def equals (value : String) : Option RegexMatcher := matchesRegex ("^" ++ escape value ++ "$")

/-! ## What is accepted -/

theorem not_isAlphanum_of_special {c : Char} (h : c ∈ specialChars) : c.isAlphanum = false := by
  simp only [specialChars, List.mem_cons, List.not_mem_nil, or_false] at h
  rcases h with rfl | rfl | rfl | rfl | rfl | rfl | rfl | rfl | rfl | rfl | rfl | rfl | rfl | rfl | rfl |
    rfl | rfl | rfl | rfl | rfl | rfl | rfl | rfl | rfl <;> rfl

/-- What stays without a backslash stands for itself. -/
theorem plain_of_not_special {c : Char} (h : c ∉ specialChars) :
    c ≠ '\\' ∧ c ≠ '^' ∧ c ≠ '$' ∧ c ∉ metaChars := by
  have hmeta : metaChars ⊆ specialChars := by
    simp [metaChars, specialChars]
  refine ⟨?_, ?_, ?_, fun hc ↦ h (hmeta hc)⟩ <;> rintro rfl <;> exact h (by simp [specialChars])

theorem parse_plain {c : Char} (h : c ∉ specialChars) (rest : List Char) :
    parse (c :: rest) = (parse rest).map (.literal c :: ·) := by
  obtain ⟨hbackslash, hbeginning, hending, hmeta⟩ := plain_of_not_special h
  rw [parse.eq_def]
  simp only [if_neg hbackslash, if_neg hbeginning, if_neg hending, if_neg hmeta]

theorem parse_escaped {c : Char} (h : c ∈ specialChars) (rest : List Char) :
    parse ('\\' :: c :: rest) = (parse rest).map (.literal c :: ·) := by
  rw [parse.eq_def]
  simp only [if_true, not_isAlphanum_of_special h, Bool.false_eq_true, if_false]

theorem parse_beginning (rest : List Char) : parse ('^' :: rest) = (parse rest).map (.beginning :: ·) := by
  rw [parse.eq_def]
  simp

theorem parse_ending : parse ['$'] = some [.ending] := by
  rw [parse.eq_def]
  simp [parse]

theorem parse_escapeChars (cs rest : List Char) :
    parse (escapeChars cs ++ rest) = (parse rest).map (cs.map .literal ++ ·) := by
  induction cs with
  | nil => simp [escapeChars]
  | cons c cs ih =>
      rw [escapeChars, List.flatMap_cons, ← escapeChars, List.append_assoc]
      split
      · rw [List.cons_append, List.cons_append, List.nil_append, parse_escaped ‹_›, ih, Option.map_map]
        rfl
      · rw [List.cons_append, List.nil_append, parse_plain ‹_›, ih, Option.map_map]
        rfl

theorem matchFrom_literals (cs : List Char) (items : List Item) (position : ℕ) (rest : List Char) :
    matchFrom (cs.map .literal ++ items) position rest = true ↔
      ∃ rest', rest = cs ++ rest' ∧ matchFrom items (position + cs.length) rest' = true := by
  induction cs generalizing position rest with
  | nil => simp
  | cons c cs ih =>
      cases rest with
      | nil => simp [matchFrom]
      | cons d rest =>
          simp only [List.map_cons, List.cons_append, matchFrom, Bool.and_eq_true, beq_iff_eq, ih,
            List.cons.injEq, List.length_cons, Nat.add_assoc, Nat.add_comm 1, and_assoc, exists_and_left]

theorem matchFrom_ending (position : ℕ) (rest : List Char) :
    matchFrom [.ending] position rest = true ↔ rest = [] ∨ rest = ['\n'] := by
  simp [matchFrom]

/-- The pattern of a string is in the fragment, and matches the string and the string
with a newline after it. -/
theorem equals_spec (s : String) :
    ∃ m, equals s = some m ∧ ∀ v : String, m.call v = true ↔ v = s ∨ v = s ++ "\n" := by
  have hparse : parse ("^" ++ escape s ++ "$").toList =
      some (.beginning :: (s.toList.map .literal ++ [.ending])) := by
    have hlist : ("^" ++ escape s ++ "$").toList = '^' :: (escapeChars s.toList ++ ['$']) := by
      simp [escape]
    rw [hlist, parse_beginning, parse_escapeChars, parse_ending]
    rfl
  refine ⟨⟨_, _⟩, by rw [equals, matchesRegex, hparse]; rfl, fun v ↦ ?_⟩
  have hnewline : (s ++ "\n").toList = s.toList ++ ['\n'] := by simp
  rw [RegexMatcher.call, matchFrom, beq_self_eq_true, Bool.true_and, matchFrom_literals]
  simp only [matchFrom_ending]
  constructor
  · rintro ⟨rest, hv, rfl | rfl⟩
    · exact .inl (String.toList_inj.mp (by rw [hv, List.append_nil]))
    · exact .inr (String.toList_inj.mp (by rw [hv, hnewline]))
  · rintro (rfl | rfl)
    · exact ⟨[], (List.append_nil _).symm, .inl rfl⟩
    · exact ⟨['\n'], hnewline, .inr rfl⟩

/-- The validator of a string accepts the values that are equal to it, and no others,
but for the string with a newline after it. -/
theorem equals_iff (s v : String) :
    ∃ m, equals s = some m ∧ ((m.call v = true ↔ v = s) ↔ v ≠ s ++ "\n") := by
  obtain ⟨m, hm, haccepts⟩ := equals_spec s
  refine ⟨m, hm, ?_⟩
  rw [haccepts v]
  constructor
  · rintro h rfl
    have hlength := congrArg String.length (h.mp (.inr rfl))
    simp at hlength
  · exact fun hne ↦ or_iff_left hne

theorem not_equals_newline :
    ∃ m, equals "aardvark" = some m ∧ m.call "aardvark\n" = true ∧ "aardvark\n" ≠ "aardvark" := by
  obtain ⟨m, hm, haccepts⟩ := equals_spec "aardvark"
  exact ⟨m, hm, (haccepts "aardvark\n").mpr (.inr rfl), by decide⟩

end OpenHtf.Validators
