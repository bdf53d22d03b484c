import Mathlib.Data.List.Basic

/-!
# Redacting the addresses in a text

`MAC_REPLACE_RE` and `MAC_REPLACEMENT` of the log filter, as the regular expression engine
runs them: the first alternative of a group before the second, and the matches of a text
from left to right.  What the redaction drops is marked in the text, so that texts can be
put together before it is done.
-/

set_option autoImplicit false

namespace OpenHtf.MacFilter

abbrev Text := List Char

/-- `\d` and `\w` of the `re` module: what they are for ASCII, and that a decimal digit
belongs to a word. -/
structure CharClass where
  decimal : Char → Bool
  word : Char → Bool
  decimal_ascii : ∀ c, c.toNat < 128 → decimal c = c.isDigit
  word_ascii : ∀ c, c.toNat < 128 → word c = (c.isAlphanum || c == '_')
  word_of_decimal : ∀ c, decimal c = true → word c = true

namespace CharClass

variable (cc : CharClass)

/-- `[\dA-F]` where case is ignored. -/
def hex (c : Char) : Bool :=
  cc.decimal c || ['A', 'B', 'C', 'D', 'E', 'F', 'a', 'b', 'c', 'd', 'e', 'f'].contains c

/-! ## The regular expression -/

/-- `[\dA-F]{2}`: its last character and what comes after it. -/
def octet : Text → Option (Char × Text)
  | a :: b :: rest => if cc.hex a && cc.hex b then some (b, rest) else none
  | _ => none

def colon : Text → Option Text
  | c :: rest => if c = ':' then some rest else none
  | [] => none

/-- `(?:[\dA-F]{2}:){n}`. -/
def octetsColon : ℕ → Text → Option Text
  | 0, s => some s
  | n + 1, s => do
      let (_, rest) ← cc.octet s
      let rest ← colon rest
      octetsColon n rest

/-- `\b` after a character. -/
def wordBoundary (prev : Char) (rest : Text) : Bool := cc.word prev != rest.head?.any cc.word

/-- `(?:[\dA-F]{2}(:|\b)){n}`: the boundary is tried where a colon leads nowhere. -/
def octetsEnd : ℕ → Text → Option Text
  | 0, s => some s
  | n + 1, s => do
      let (prev, rest) ← cc.octet s
      (colon rest >>= octetsEnd n) <|> (if cc.wordBoundary prev rest then octetsEnd n rest else none)

/-- A match at the beginning of a text: the first group, and what comes after the match. -/
def matchMac (s : Text) : Option (Text × Text) := do
  let rest ← cc.octetsColon 3 s
  let after ← cc.octetsEnd 3 rest
  return (s.take (s.length - rest.length), after)

/-- `MAC_REPLACE_RE.search`. -/
def search : Text → Bool
  | [] => false
  | c :: cs => (cc.matchMac (c :: cs)).isSome || search cs

/-- What `MAC_REPLACEMENT` puts after the first group. -/
def redacted : Text := ['<', 'R', 'E', 'D', 'A', 'C', 'T', 'E', 'D', '>']

/-- `MAC_REPLACE_RE.sub` where the given number of characters belong to a match already. -/
def subFrom : ℕ → Text → Text
  | _, [] => []
  | skip + 1, _ :: cs => subFrom skip cs
  | 0, c :: cs =>
      match cc.matchMac (c :: cs) with
      | some (group, after) => group ++ (redacted ++ subFrom (cs.length - after.length) cs)
      | none => c :: subFrom 0 cs

/-- `MAC_REPLACE_RE.sub(MAC_REPLACEMENT, s)`. -/
def sub (s : Text) : Text := cc.subFrom 0 s

/-! ## Characters -/

theorem hex_of_ascii {c : Char} (h : c.toNat < 128) :
    cc.hex c = (c.isDigit || ['A', 'B', 'C', 'D', 'E', 'F', 'a', 'b', 'c', 'd', 'e', 'f'].contains c) := by
  rw [hex, cc.decimal_ascii c h]

theorem word_of_hex {c : Char} (h : cc.hex c = true) : cc.word c = true := by
  rw [hex, Bool.or_eq_true] at h
  rcases h with h | h
  · exact cc.word_of_decimal c h
  · rw [List.contains_eq_mem, decide_eq_true_eq] at h
    have hletters : ['A', 'B', 'C', 'D', 'E', 'F', 'a', 'b', 'c', 'd', 'e', 'f'].all
        (fun c ↦ decide (c.toNat < 128) && (c.isAlphanum || c == '_')) = true := by
      decide
    have hletter := List.all_eq_true.mp hletters c h
    rw [Bool.and_eq_true, decide_eq_true_eq] at hletter
    rw [cc.word_ascii c hletter.1]
    exact hletter.2

theorem word_colon : cc.word ':' = false := by
  rw [cc.word_ascii _ (by decide)]
  decide

theorem hex_colon : cc.hex ':' = false := by
  rw [cc.hex_of_ascii (by decide)]
  decide

theorem hex_lt : cc.hex '<' = false := by
  rw [cc.hex_of_ascii (by decide)]
  decide

theorem ne_colon_of_hex {c : Char} (h : cc.hex c = true) : c ≠ ':' := by
  rintro rfl
  rw [cc.hex_colon] at h
  cases h

/-! ## What an address looks like -/

end CharClass

/-- The elements that fit the pattern, one after the other, and what comes after them. -/
def fits {β : Type} : List (β → Bool) → List β → Option (List β)
  | [], xs => some xs
  | _ :: _, [] => none
  | q :: qs, x :: xs => if q x then fits qs xs else none

theorem fits_append {β : Type} (qs qs' : List (β → Bool)) (xs : List β) :
    fits (qs ++ qs') xs = fits qs xs >>= fits qs' := by
  induction qs generalizing xs with
  | nil => rfl
  | cons q qs ih =>
      cases xs with
      | nil => rfl
      | cons x xs =>
          simp only [List.cons_append, fits, ih]
          split <;> rfl

theorem eq_append_of_fits {β : Type} {qs : List (β → Bool)} {xs rest : List β}
    (h : fits qs xs = some rest) :
    ∃ pre, xs = pre ++ rest ∧ pre.length = qs.length ∧ ∀ x ∈ pre, ∃ q ∈ qs, q x = true := by
  induction qs generalizing xs with
  | nil =>
      obtain rfl := Option.some.inj h
      exact ⟨[], rfl, rfl, nofun⟩
  | cons q qs ih =>
      cases xs with
      | nil => cases h
      | cons x xs =>
          rw [fits] at h
          split at h
          · rename_i hq
            obtain ⟨pre, rfl, hlen, hall⟩ := ih h
            refine ⟨x :: pre, rfl, congrArg (· + 1) hlen, ?_⟩
            intro y hy
            rcases List.mem_cons.mp hy with rfl | hy
            · exact ⟨q, List.mem_cons_self, hq⟩
            · obtain ⟨q', hq', hy⟩ := hall y hy
              exact ⟨q', List.mem_cons_of_mem _ hq', hy⟩
          · cases h

/-- What fits the last part of a pattern. -/
theorem eq_append_of_fits_concat {β : Type} {qs : List (β → Bool)} {q : β → Bool} {xs rest : List β}
    (h : fits (qs ++ [q]) xs = some rest) :
    ∃ pre x, xs = pre ++ (x :: rest) ∧ pre.length = qs.length ∧ q x = true := by
  obtain ⟨rest', hpre, hlast⟩ := Option.bind_eq_some_iff.mp ((fits_append qs [q] xs).symm.trans h)
  clear h
  obtain ⟨pre, rfl, hlen, -⟩ := eq_append_of_fits hpre
  cases rest' with
  | nil => cases hlast
  | cons x rest' =>
      rw [fits] at hlast
      split at hlast
      · rename_i hq
        obtain rfl := Option.some.inj hlast
        exact ⟨pre, x, rfl, hlen, hq⟩
      · cases hlast

namespace CharClass

variable (cc : CharClass)

/-- `[\dA-F]{2}:`. -/
def octetColon : List (Char → Bool) := [cc.hex, cc.hex, (· == ':')]

/-- Six octets. -/
def address : List (Char → Bool) :=
  cc.octetColon ++ (cc.octetColon ++ (cc.octetColon ++
    (cc.octetColon ++ (cc.octetColon ++ [cc.hex, cc.hex]))))

theorem octetColon_bind (s : Text) :
    (cc.octet s >>= fun x ↦ colon x.2) = fits cc.octetColon s := by
  cases s with
  | nil => rfl
  | cons a s =>
      cases s with
      | nil =>
          simp only [octetColon, fits]
          cases cc.hex a <;> rfl
      | cons b s =>
          cases s with
          | nil =>
              simp only [octet, octetColon, fits]
              cases cc.hex a <;> cases cc.hex b <;> rfl
          | cons c s =>
              simp only [octet, octetColon, fits, beq_iff_eq]
              cases cc.hex a <;> cases cc.hex b <;> rfl

/-- A boundary inside an address is none: a digit stands on both sides of it. -/
theorem octetsEnd_of_wordBoundary {prev : Char} (hprev : cc.hex prev = true) (rest : Text) (n : ℕ) :
    (if cc.wordBoundary prev rest then cc.octetsEnd (n + 1) rest else none) = none := by
  split
  · rename_i hb
    cases rest with
    | nil => rfl
    | cons c rest =>
        cases hc : cc.hex c with
        | true =>
            rw [wordBoundary, cc.word_of_hex hprev, List.head?_cons, Option.any_some,
              cc.word_of_hex hc] at hb
            cases hb
        | false =>
            cases rest with
            | nil => rfl
            | cons d rest => simp [octetsEnd, octet, hc]
  · rfl

theorem hex_of_octet {s rest : Text} {prev : Char} (h : cc.octet s = some (prev, rest)) :
    cc.hex prev = true := by
  unfold octet at h
  split at h
  · split at h
    · rename_i hhex
      obtain ⟨rfl, rfl⟩ := Prod.mk.inj (Option.some.inj h)
      exact (Bool.and_eq_true_iff.mp hhex).2
    · cases h
  · cases h

theorem octetsEnd_succ_succ (n : ℕ) (s : Text) :
    cc.octetsEnd (n + 2) s = fits cc.octetColon s >>= cc.octetsEnd (n + 1) := by
  rw [octetsEnd, ← octetColon_bind]
  cases h : cc.octet s with
  | none => rfl
  | some x =>
      obtain ⟨prev, rest⟩ := x
      have hnone := cc.octetsEnd_of_wordBoundary (cc.hex_of_octet h) rest n
      simp [hnone]

theorem octetsColon_succ (n : ℕ) (s : Text) :
    cc.octetsColon (n + 1) s = fits cc.octetColon s >>= cc.octetsColon n := by
  rw [octetsColon, ← octetColon_bind]
  cases cc.octet s <;> rfl

/-- What may come after the last octet: a colon belongs to the match. -/
def afterAddress (rest : Text) : Option Text :=
  match colon rest with
  | some rest => some rest
  | none => if rest.head?.any cc.word then none else some rest

theorem fits_hex_hex (s : Text) : fits [cc.hex, cc.hex] s = Prod.snd <$> cc.octet s := by
  cases s with
  | nil => rfl
  | cons a s =>
      cases s with
      | nil =>
          simp only [fits]
          cases cc.hex a <;> rfl
      | cons b s =>
          simp only [octet, fits]
          cases cc.hex a <;> cases cc.hex b <;> rfl

theorem octetsEnd_one (s : Text) :
    cc.octetsEnd 1 s = fits [cc.hex, cc.hex] s >>= cc.afterAddress := by
  rw [octetsEnd, fits_hex_hex]
  cases h : cc.octet s with
  | none => rfl
  | some x =>
      obtain ⟨prev, rest⟩ := x
      have hword := cc.word_of_hex (cc.hex_of_octet h)
      change ((colon rest >>= cc.octetsEnd 0) <|>
        (if cc.wordBoundary prev rest then cc.octetsEnd 0 rest else none)) = cc.afterAddress rest
      rw [afterAddress, wordBoundary, hword]
      cases colon rest with
      | some rest' => rfl
      | none =>
          change (if (true != rest.head?.any cc.word) = true then some rest else none) = _
          cases rest.head?.any cc.word <;> rfl

theorem octetsColon_three (s : Text) : cc.octetsColon 3 s =
    fits (cc.octetColon ++ (cc.octetColon ++ cc.octetColon)) s := by
  rw [octetsColon_succ, fits_append]
  congr 1
  funext s
  rw [octetsColon_succ, fits_append]
  congr 1
  funext s
  rw [octetsColon_succ]
  exact bind_pure _

theorem octetsEnd_three (s : Text) : cc.octetsEnd 3 s =
    fits (cc.octetColon ++ (cc.octetColon ++ [cc.hex, cc.hex])) s >>= cc.afterAddress := by
  rw [octetsEnd_succ_succ, fits_append, bind_assoc]
  congr 1
  funext s
  rw [octetsEnd_succ_succ, fits_append, bind_assoc]
  congr 1
  funext s
  exact cc.octetsEnd_one s

/-- The whole match. -/
theorem octets_eq (s : Text) :
    (cc.octetsColon 3 s >>= cc.octetsEnd 3) = fits cc.address s >>= cc.afterAddress := by
  have haddress : cc.address = (cc.octetColon ++ (cc.octetColon ++ cc.octetColon)) ++
      (cc.octetColon ++ (cc.octetColon ++ [cc.hex, cc.hex])) := rfl
  rw [octetsColon_three, haddress, fits_append (cc.octetColon ++ (cc.octetColon ++ cc.octetColon)),
    bind_assoc]
  exact congrArg _ (funext cc.octetsEnd_three)

/-- An address stands at the beginning of the text: six octets and no letter after them. -/
def startsWithAddress (s : Text) : Bool :=
  (fits cc.address s).any fun rest ↦ !rest.head?.any cc.word

theorem isSome_afterAddress (rest : Text) :
    (cc.afterAddress rest).isSome = !rest.head?.any cc.word := by
  unfold afterAddress
  cases rest with
  | nil => rfl
  | cons c rest =>
      rw [colon, List.head?_cons, Option.any_some]
      by_cases hc : c = ':'
      · subst hc
        rw [if_pos rfl, cc.word_colon]
        rfl
      · rw [if_neg hc]
        cases cc.word c <;> rfl

theorem isSome_matchMac (s : Text) : (cc.matchMac s).isSome = cc.startsWithAddress s := by
  have hsome : (cc.matchMac s).isSome = (cc.octetsColon 3 s >>= cc.octetsEnd 3).isSome := by
    unfold matchMac
    cases cc.octetsColon 3 s with
    | none => rfl
    | some rest =>
        change ((cc.octetsEnd 3 rest >>= fun after ↦ some (s.take (s.length - rest.length), after)).isSome) =
          (cc.octetsEnd 3 rest).isSome
        cases cc.octetsEnd 3 rest <;> rfl
  rw [hsome, octets_eq, startsWithAddress]
  cases fits cc.address s with
  | none => rfl
  | some rest => exact cc.isSome_afterAddress rest

theorem colon_eq_some {s rest : Text} (h : colon s = some rest) : s = ':' :: rest := by
  cases s with
  | nil => cases h
  | cons c s =>
      rw [colon] at h
      split at h
      · rename_i hc
        rw [hc, Option.some.inj h]
      · cases h

/-- The colon after the last octet is the only thing that a match takes beyond it. -/
theorem afterAddress_cases {rest after : Text} (h : cc.afterAddress rest = some after) :
    rest = after ∨ rest = ':' :: after := by
  unfold afterAddress at h
  split at h
  · rename_i rest' hcolon
    obtain rfl := Option.some.inj h
    exact .inr (colon_eq_some hcolon)
  · split at h
    · cases h
    · exact .inl (Option.some.inj h)

/-- The parts of a text around a match of it. -/
structure IsMatch (s group dropped after : Text) : Prop where
  text : s = group ++ (dropped ++ after)
  length_group : group.length = 9
  colon : ∃ g, group = g ++ [':']
  length_dropped : dropped.length = 8 ∨ dropped.length = 9
  chars : ∀ c ∈ dropped, cc.hex c = true ∨ c = ':'

/-- The three last octets. -/
theorem octets_of_fits {s rest : Text}
    (h : fits (cc.octetColon ++ (cc.octetColon ++ [cc.hex, cc.hex])) s = some rest) :
    ∃ octets, s = octets ++ rest ∧ octets.length = 8 ∧ ∀ c ∈ octets, cc.hex c = true ∨ c = ':' := by
  obtain ⟨octets, rfl, hlen, hoctets⟩ := eq_append_of_fits h
  refine ⟨octets, rfl, hlen, ?_⟩
  intro c hmem
  obtain ⟨q, hq, hqc⟩ := hoctets c hmem
  have hq' : q = cc.hex ∨ q = (· == ':') := by
    simp only [octetColon, List.cons_append, List.nil_append, List.mem_cons, List.not_mem_nil,
      or_false] at hq
    tauto
  rcases hq' with rfl | rfl
  · exact .inl hqc
  · exact .inr (beq_iff_eq.mp hqc)

theorem isMatch_of_matchMac {s group after : Text} (h : cc.matchMac s = some (group, after)) :
    ∃ dropped, cc.IsMatch s group dropped after := by
  obtain ⟨rest, hrest, h⟩ := Option.bind_eq_some_iff.mp h
  obtain ⟨after', hends, h⟩ := Option.bind_eq_some_iff.mp h
  obtain ⟨hgroup, rfl⟩ := Prod.mk.inj (Option.some.inj h)
  rw [octetsColon_three] at hrest
  rw [octetsEnd_three] at hends
  obtain ⟨tail, hend, hafter⟩ := Option.bind_eq_some_iff.mp hends
  have hsplit : cc.octetColon ++ (cc.octetColon ++ cc.octetColon) =
      (cc.octetColon ++ (cc.octetColon ++ [cc.hex, cc.hex])) ++ [(· == ':')] := rfl
  rw [hsplit] at hrest
  obtain ⟨pre, c, rfl, hlen, hc⟩ := eq_append_of_fits_concat hrest
  obtain rfl : c = ':' := beq_iff_eq.mp hc
  obtain ⟨octets, rfl, hlen', hchars⟩ := cc.octets_of_fits hend
  have htake : (pre ++ (':' :: (octets ++ tail))).take
      ((pre ++ (':' :: (octets ++ tail))).length - (octets ++ tail).length) = pre ++ [':'] := by
    rw [List.append_cons pre ':', List.length_append, Nat.add_sub_cancel, List.take_left]
  obtain rfl : pre ++ [':'] = group := htake.symm.trans hgroup
  have hlength : (pre ++ [':']).length = 9 := by
    rw [List.length_append, hlen]
    rfl
  rcases cc.afterAddress_cases hafter with rfl | rfl
  · exact ⟨octets, by simp, hlength, ⟨pre, rfl⟩, .inl hlen', hchars⟩
  · refine ⟨octets ++ [':'], by simp, hlength, ⟨pre, rfl⟩, ?_, ?_⟩
    · rw [List.length_append, hlen']
      exact .inr rfl
    · intro c hmem
      rcases List.mem_append.mp hmem with hmem | hmem
      · exact hchars c hmem
      · exact .inr (List.mem_singleton.mp hmem)

end CharClass

end OpenHtf.MacFilter
