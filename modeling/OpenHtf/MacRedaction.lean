import OpenHtf.MacAddress

/-!
# What a redaction leaves

A text whose characters are marked with what the redaction does to them.  Marked texts can
be put together and rendered afterwards, and an address is found in what was rendered
exactly where one was in the text with none of its characters dropped.
-/

set_option autoImplicit false

namespace OpenHtf.MacFilter

/-- A character is kept, or it is the first of those that make way for the replacement, or
one of the others. -/
inductive Mark where
  | kept | first | rest
  deriving DecidableEq

abbrev Marked := List (Char × Mark)

def keep (s : Text) : Marked := s.map fun c ↦ (c, .kept)

/-- The marks of what is dropped together. -/
def drop : Text → Marked
  | [] => []
  | c :: cs => (c, .first) :: cs.map fun c ↦ (c, .rest)

/-- The text after the redaction. -/
def render : Marked → Text
  | [] => []
  | (c, .kept) :: m => c :: render m
  | (_, .first) :: m => CharClass.redacted ++ render m
  | (_, .rest) :: m => render m

@[simp] theorem render_append (m m' : Marked) : render (m ++ m') = render m ++ render m' := by
  induction m with
  | nil => rfl
  | cons x m ih =>
      obtain ⟨c, mark⟩ := x
      cases mark <;> simp [render, ih]

@[simp] theorem render_keep (s : Text) : render (keep s) = s := by
  induction s with
  | nil => rfl
  | cons c s ih => exact congrArg (c :: ·) ih

theorem render_drop {s : Text} (h : s ≠ []) : render (drop s) = CharClass.redacted := by
  have hrest (s : Text) : render (s.map fun c ↦ (c, .rest)) = [] := by
    induction s with
    | nil => rfl
    | cons c s ih => exact ih
  cases s with
  | nil => exact absurd rfl h
  | cons c s => rw [drop, render, hrest, List.append_nil]

theorem length_drop (s : Text) : (drop s).length = s.length := by
  cases s with
  | nil => rfl
  | cons c s => simp [drop]

namespace CharClass

variable (cc : CharClass)

/-- The marks of the rest of a text; those at the front are given. -/
def markFrom : List Mark → Text → Marked
  | _, [] => []
  | mark :: marks, c :: cs => (c, mark) :: markFrom marks cs
  | [], c :: cs =>
      match cc.matchMac (c :: cs) with
      | some (group, after) =>
          (c, .kept) :: markFrom (List.replicate (group.length - 1) .kept ++ .first ::
            List.replicate (cs.length - after.length - group.length) .rest) cs
      | none => (c, .kept) :: markFrom [] cs

/-- What `MAC_REPLACE_RE.sub` drops of a text. -/
def mark (s : Text) : Marked := cc.markFrom [] s

/-! ## One match after the other -/

variable {cc}

theorem subFrom_append (pre post : Text) : cc.subFrom pre.length (pre ++ post) = cc.sub post := by
  induction pre with
  | nil => rfl
  | cons c pre ih => exact ih

theorem markFrom_append {marks : List Mark} {pre : Text} (h : marks.length = pre.length) (post : Text) :
    cc.markFrom marks (pre ++ post) = pre.zip marks ++ cc.mark post := by
  induction pre generalizing marks with
  | nil =>
      obtain rfl := List.length_eq_zero_iff.mp h
      rfl
  | cons c pre ih =>
      obtain ⟨mark, marks, rfl⟩ := List.exists_cons_of_length_eq_add_one h
      have hrest := ih (Nat.succ.inj h)
      rw [List.cons_append, markFrom, hrest]
      rfl

theorem sub_of_none {c : Char} {cs : Text} (h : cc.matchMac (c :: cs) = none) :
    cc.sub (c :: cs) = c :: cc.sub cs := by
  rw [sub, subFrom, h]
  rfl

theorem mark_of_none {c : Char} {cs : Text} (h : cc.matchMac (c :: cs) = none) :
    cc.mark (c :: cs) = (c, .kept) :: cc.mark cs := by
  rw [mark, markFrom, h]
  rfl

theorem zip_replicate (s : Text) (mark : Mark) :
    s.zip (List.replicate s.length mark) = s.map fun c ↦ (c, mark) := by
  induction s with
  | nil => rfl
  | cons c s ih => exact congrArg ((c, mark) :: ·) ih

theorem sub_of_isMatch {s group dropped after : Text} (h : cc.matchMac s = some (group, after))
    (hm : cc.IsMatch s group dropped after) :
    cc.sub s = group ++ (redacted ++ cc.sub after) := by
  obtain ⟨rfl, hlen, -, hlen', -⟩ := hm
  cases group with
  | nil => cases hlen
  | cons c group =>
      have hskip : (group ++ (dropped ++ after)).length - after.length = (group ++ dropped).length := by
        simp only [List.length_append]
        omega
      rw [List.cons_append] at h ⊢
      rw [sub, subFrom, h]
      simp only [hskip]
      rw [← List.append_assoc group, subFrom_append]

theorem mark_of_isMatch {s group dropped after : Text} (h : cc.matchMac s = some (group, after))
    (hm : cc.IsMatch s group dropped after) :
    cc.mark s = keep group ++ (drop dropped ++ cc.mark after) := by
  obtain ⟨rfl, hlen, -, hlen', -⟩ := hm
  cases group with
  | nil => cases hlen
  | cons c group =>
      cases dropped with
      | nil => cases hlen' <;> contradiction
      | cons d dropped =>
          have hrest : (group ++ (d :: dropped ++ after)).length - after.length - (c :: group).length =
              dropped.length := by
            simp only [List.length_append, List.length_cons]
            omega
          rw [List.cons_append] at h ⊢
          rw [mark, markFrom, h]
          simp only [hrest]
          have hsplit : group ++ (d :: dropped ++ after) = (group ++ d :: dropped) ++ after := by simp
          rw [hsplit, markFrom_append (by simp)]
          have hzip : (group ++ d :: dropped).zip (List.replicate ((c :: group).length - 1) .kept ++
              .first :: List.replicate dropped.length .rest) = keep group ++ drop (d :: dropped) := by
            rw [List.length_cons, Nat.add_sub_cancel, List.zip_append (by simp), zip_replicate,
              List.zip_cons_cons, zip_replicate]
            rfl
          rw [hzip]
          simp [keep]

/-- A text is read as its matches are: where none begins one character is passed, else the
whole match is. -/
theorem scan_induction (cc : CharClass) {P : Text → Prop} (nil : P [])
    (none : ∀ c cs, cc.matchMac (c :: cs) = none → P cs → P (c :: cs))
    (isMatch : ∀ s group dropped after, cc.matchMac s = some (group, after) →
      cc.IsMatch s group dropped after → P after → P s) (s : Text) : P s := by
  induction hn : s.length using Nat.strongRecOn generalizing s with
  | _ n ih =>
      cases s with
      | nil => exact nil
      | cons c cs =>
          cases h : cc.matchMac (c :: cs) with
          | none => exact none c cs h (ih cs.length (by simp [← hn]) cs rfl)
          | some x =>
              obtain ⟨group, after⟩ := x
              obtain ⟨dropped, hm⟩ := cc.isMatch_of_matchMac h
              apply isMatch _ group dropped after h hm
              apply ih after.length _ after rfl
              have hlen := congrArg List.length hm.text
              simp only [List.length_append, hm.length_group] at hlen
              omega

theorem IsMatch.dropped_ne_nil {s group dropped after : Text}
    (hm : cc.IsMatch s group dropped after) : dropped ≠ [] := by
  rintro rfl
  rcases hm.length_dropped with h | h <;> cases h

/-- Rendering what was marked is the substitution. -/
theorem render_mark (s : Text) : render (cc.mark s) = cc.sub s := by
  induction s using scan_induction cc with
  | nil => rfl
  | none c cs h ih => rw [mark_of_none h, sub_of_none h, render, ih]
  | isMatch s group dropped after h hm ih =>
      rw [mark_of_isMatch h hm, sub_of_isMatch h hm, render_append, render_append, render_keep,
        render_drop hm.dropped_ne_nil, ih]

end CharClass

/-! ## Where characters may be dropped -/

/-- What stands before a character: a colon, a character that is dropped, or neither. -/
inductive Prev where
  | other | colon | dropped
  deriving DecidableEq

namespace Prev

def next (c : Char) : Mark → Prev
  | .kept => if c = ':' then colon else other
  | .first => dropped
  | .rest => dropped

/-- Only what follows a colon or is dropped already is dropped, and nothing that a template
is read by. -/
def Allows (prev : Prev) (c : Char) : Mark → Prop
  | .kept => True
  | .first => prev = colon ∧ c ≠ '%' ∧ c ≠ '(' ∧ c ≠ ')'
  | .rest => prev = dropped ∧ c ≠ '%' ∧ c ≠ '(' ∧ c ≠ ')'

end Prev

/-- The marks of a text are in their places. -/
def Placed : Prev → Marked → Prop
  | _, [] => True
  | prev, (c, mark) :: m => prev.Allows c mark ∧ Placed (.next c mark) m

theorem placed_of_other {m : Marked} (h : Placed .other m) (prev : Prev) : Placed prev m := by
  cases m with
  | nil => trivial
  | cons x m =>
      obtain ⟨c, mark⟩ := x
      cases mark with
      | kept => exact h
      | first => exact nomatch h.1.1
      | rest => exact nomatch h.1.1

theorem placed_append {prev : Prev} {m m' : Marked} (h : Placed prev m) (h' : Placed .other m') :
    Placed prev (m ++ m') := by
  induction m generalizing prev with
  | nil => exact placed_of_other h' prev
  | cons x m ih => exact ⟨h.1, ih h.2⟩

theorem placed_keep (s : Text) (prev : Prev) : Placed prev (keep s) := by
  induction s generalizing prev with
  | nil => trivial
  | cons c s ih => exact ⟨trivial, ih _⟩

theorem placed_keep_colon {g : Text} {m : Marked} (h : Placed .colon m) (prev : Prev) :
    Placed prev (keep (g ++ [':']) ++ m) := by
  induction g generalizing prev with
  | nil => exact ⟨trivial, h⟩
  | cons c g ih => exact ⟨trivial, ih _⟩

theorem placed_drop {d : Text} {m : Marked} (hd : d ≠ [])
    (hchars : ∀ c ∈ d, c ≠ '%' ∧ c ≠ '(' ∧ c ≠ ')') (h : Placed .dropped m) :
    Placed .colon (drop d ++ m) := by
  have hrest (d : Text) (hchars : ∀ c ∈ d, c ≠ '%' ∧ c ≠ '(' ∧ c ≠ ')') :
      Placed .dropped ((d.map fun c ↦ (c, .rest)) ++ m) := by
    induction d with
    | nil => exact h
    | cons c d ih =>
        exact ⟨⟨rfl, hchars c List.mem_cons_self⟩, ih fun x hx ↦ hchars x (List.mem_cons_of_mem _ hx)⟩
  cases d with
  | nil => exact absurd rfl hd
  | cons c d =>
      exact ⟨⟨rfl, hchars c List.mem_cons_self⟩,
        hrest d fun x hx ↦ hchars x (List.mem_cons_of_mem _ hx)⟩

namespace CharClass

variable {cc : CharClass}

theorem IsMatch.droppable {s group dropped after : Text} (hm : cc.IsMatch s group dropped after)
    {c : Char} (hc : c ∈ dropped) : c ≠ '%' ∧ c ≠ '(' ∧ c ≠ ')' := by
  have hword : ∀ d ∈ ['%', '(', ')'], cc.hex d = false ∧ d ≠ ':' := by
    intro d hd
    have hascii : ∀ d ∈ ['%', '(', ')'], d.toNat < 128 ∧ d ≠ ':' ∧
        (d.isDigit || ['A', 'B', 'C', 'D', 'E', 'F', 'a', 'b', 'c', 'd', 'e', 'f'].contains d) = false := by
      simp [Char.isDigit]
    obtain ⟨hlt, hne, hhex⟩ := hascii d hd
    rw [cc.hex_of_ascii hlt]
    exact ⟨hhex, hne⟩
  have hne {d : Char} (hd : d ∈ ['%', '(', ')']) : c ≠ d := by
    rintro rfl
    rcases hm.chars c hc with h | h
    · exact absurd ((hword c hd).1.symm.trans h) nofun
    · exact (hword c hd).2 h
  exact ⟨hne (by simp), hne (by simp), hne (by simp)⟩

/-- The marks of a redaction are in their places, whatever comes before the text. -/
theorem placed_mark (s : Text) (prev : Prev) : Placed prev (cc.mark s) := by
  induction s using scan_induction cc generalizing prev with
  | nil => trivial
  | none c cs h ih =>
      rw [mark_of_none h]
      exact ⟨trivial, ih _⟩
  | isMatch s group dropped after h hm ih =>
      rw [mark_of_isMatch h hm]
      obtain ⟨g, rfl⟩ := hm.colon
      exact placed_keep_colon (placed_drop hm.dropped_ne_nil (fun _ ↦ hm.droppable) (ih _)) prev

/-! ## Addresses of which nothing is dropped -/

/-- The character is kept, and `q` holds of it. -/
def isKept (q : Char → Bool) (x : Char × Mark) : Bool := x.2 == .kept && q x.1

/-- An address stands at the beginning, and its six octets are kept. -/
def startsWithKept (cc : CharClass) (m : Marked) : Bool :=
  (fits (cc.address.map isKept) m).any fun rest ↦ !rest.head?.any (cc.word ·.1)

def keptAddress (cc : CharClass) : Marked → Bool
  | [] => false
  | x :: m => startsWithKept cc (x :: m) || keptAddress cc m

theorem search_cons (c : Char) (cs : Text) :
    cc.search (c :: cs) = (cc.startsWithAddress (c :: cs) || cc.search cs) := by
  rw [search, isSome_matchMac]

theorem startsWithAddress_of_third {a b c : Char} (h : c ≠ ':') (s : Text) :
    cc.startsWithAddress (a :: b :: c :: s) = false := by
  have hc : (c == ':') = false := beq_false_of_ne h
  simp only [startsWithAddress, address, octetColon, List.cons_append, fits, hc]
  cases cc.hex a <;> cases cc.hex b <;> rfl

theorem startsWithAddress_of_second {b : Char} (h : cc.hex b = false) (a : Char) (s : Text) :
    cc.startsWithAddress (a :: b :: s) = false := by
  simp only [startsWithAddress, address, octetColon, List.cons_append, fits, h]
  cases cc.hex a <;> rfl

theorem startsWithAddress_of_first {a : Char} (h : cc.hex a = false) (s : Text) :
    cc.startsWithAddress (a :: s) = false := by
  simp only [startsWithAddress, address, octetColon, List.cons_append, fits, h]
  rfl

/-- No address begins in the replacement. -/
theorem search_redacted (s : Text) : cc.search (redacted ++ s) = cc.search s := by
  have hgt : cc.hex '>' = false := by
    rw [cc.hex_of_ascii (by decide)]
    decide
  have hthird {a b c : Char} (h : c ≠ ':') (s : Text) :
      cc.search (a :: b :: c :: s) = cc.search (b :: c :: s) := by
    rw [search_cons, startsWithAddress_of_third h, Bool.false_or]
  rw [redacted, List.cons_append, List.cons_append, List.cons_append, List.cons_append,
    List.cons_append, List.cons_append, List.cons_append, List.cons_append, List.cons_append,
    List.cons_append, List.nil_append]
  repeat rw [hthird (by decide)]
  rw [search_cons, startsWithAddress_of_second hgt, search_cons, startsWithAddress_of_first hgt]
  rfl

/-- What fits a pattern after the redaction fitted it before, with nothing dropped. -/
theorem fits_render {qs : List (Char → Bool)} (hqs : ∀ q ∈ qs, q '<' = false) {prev : Prev}
    {m : Marked} (h : Placed prev m) (hprev : prev ≠ .dropped) :
    fits qs (render m) = render <$> fits (qs.map isKept) m := by
  induction qs generalizing prev m with
  | nil => rfl
  | cons q qs ih =>
      cases m with
      | nil => rfl
      | cons x m =>
          obtain ⟨c, mark⟩ := x
          cases mark with
          | kept =>
              have hnext : Prev.next c .kept ≠ .dropped := by
                rw [Prev.next]
                split <;> decide
              have hrest := ih (fun q hq ↦ hqs q (List.mem_cons_of_mem _ hq)) h.2 hnext
              rw [render, List.map_cons, fits, fits]
              cases hq : q c with
              | true =>
                  rw [if_pos rfl, if_pos (by simpa [isKept] using hq)]
                  exact hrest
              | false =>
                  rw [if_neg (by simp), if_neg (by simp [isKept, hq])]
                  rfl
          | first =>
              rw [render, redacted, List.cons_append, List.map_cons, fits, fits,
                if_neg (by simp [hqs q List.mem_cons_self]), if_neg (by simp [isKept])]
              rfl
          | rest => exact absurd h.1.1 hprev

theorem placed_suffix {pre m : Marked} {prev : Prev} {c : Char} {mark : Mark}
    (h : Placed prev (pre ++ ((c, mark) :: m))) : Placed (.next c mark) m := by
  induction pre generalizing prev with
  | nil => exact h.2
  | cons x pre ih => exact ih h.2

/-- What comes after a kept character that is no colon is kept, too. -/
theorem any_head_render {m : Marked} (h : Placed .other m) (q : Char → Bool) :
    (render m).head?.any q = m.head?.any (q ·.1) := by
  cases m with
  | nil => rfl
  | cons x m =>
      obtain ⟨c, mark⟩ := x
      cases mark with
      | kept => rfl
      | first => exact nomatch h.1.1
      | rest => exact nomatch h.1.1

theorem startsWithAddress_render {prev : Prev} {m : Marked} (h : Placed prev m)
    (hprev : prev ≠ .dropped) : cc.startsWithAddress (render m) = startsWithKept cc m := by
  have hlt : ∀ q ∈ cc.address, q '<' = false := by
    intro q hq
    have hq' : q = cc.hex ∨ q = (· == ':') := by
      simp only [address, octetColon, List.cons_append, List.nil_append, List.mem_cons,
        List.not_mem_nil, or_false] at hq
      tauto
    rcases hq' with rfl | rfl
    · exact cc.hex_lt
    · decide
  rw [startsWithAddress, startsWithKept, fits_render hlt h hprev]
  cases hfits : fits (cc.address.map isKept) m with
  | none => rfl
  | some rest =>
      have hsplit : cc.address.map isKept = ((cc.octetColon ++ (cc.octetColon ++ (cc.octetColon ++
          (cc.octetColon ++ (cc.octetColon ++ [cc.hex]))))).map isKept) ++ [isKept cc.hex] := rfl
      rw [hsplit] at hfits
      obtain ⟨pre, ⟨c, mark⟩, rfl, -, hc⟩ := eq_append_of_fits_concat hfits
      obtain ⟨hmark, hhex⟩ := Bool.and_eq_true_iff.mp hc
      obtain rfl : mark = .kept := beq_iff_eq.mp hmark
      have hrest : Placed .other rest := by
        have hsuffix := placed_suffix h
        rwa [Prev.next, if_neg (cc.ne_colon_of_hex hhex)] at hsuffix
      change (!(render rest).head?.any cc.word) = !rest.head?.any (cc.word ·.1)
      rw [any_head_render hrest]

/-- An address that is found after the redaction was there before, with nothing of it
dropped, and the other way round. -/
theorem search_render {prev : Prev} {m : Marked} (h : Placed prev m) :
    cc.search (render m) = cc.keptAddress m := by
  induction m generalizing prev with
  | nil => rfl
  | cons x m ih =>
      obtain ⟨c, mark⟩ := x
      have hrest := ih h.2
      cases mark with
      | kept =>
          have hstarts : cc.startsWithAddress (render ((c, .kept) :: m)) =
              startsWithKept cc ((c, .kept) :: m) := by
            have hplaced : Placed .other ((c, .kept) :: m) := ⟨trivial, h.2⟩
            exact startsWithAddress_render hplaced nofun
          rw [keptAddress, ← hstarts, ← hrest]
          exact search_cons c (render m)
      | first =>
          rw [render, search_redacted, hrest]
          rfl
      | rest =>
          rw [render, hrest]
          rfl

/-! ## The redaction of one text -/

/-- The text that was marked. -/
def erase (m : Marked) : Text := m.map Prod.fst

theorem erase_drop (s : Text) : erase (drop s) = s := by
  cases s with
  | nil => rfl
  | cons c s => simp [erase, drop, Function.comp_def]

theorem erase_mark (s : Text) : erase (cc.mark s) = s := by
  induction s using scan_induction cc with
  | nil => rfl
  | none c cs h ih =>
      rw [mark_of_none h]
      exact congrArg (c :: ·) ih
  | isMatch s group dropped after h hm ih =>
      have hkeep : erase (keep group) = group := by simp [erase, keep, Function.comp_def]
      rw [mark_of_isMatch h hm, erase, List.map_append, List.map_append, ← erase, ← erase, ← erase,
        hkeep, erase_drop, ih]
      exact hm.text.symm

theorem fits_erase {qs : List (Char → Bool)} {m rest : Marked} (h : fits (qs.map isKept) m = some rest) :
    fits qs (erase m) = some (erase rest) := by
  induction qs generalizing m with
  | nil => exact congrArg (fun m ↦ some (erase m)) (Option.some.inj h)
  | cons q qs ih =>
      cases m with
      | nil => cases h
      | cons x m =>
          obtain ⟨c, mark⟩ := x
          rw [List.map_cons, fits] at h
          split at h
          · rename_i hkept
            have hq : q c = true := (Bool.and_eq_true_iff.mp hkept).2
            change (if q c = true then fits qs (erase m) else none) = _
            rw [if_pos hq]
            exact ih h
          · cases h

theorem startsWithAddress_erase {m : Marked} (h : startsWithKept cc m = true) :
    cc.startsWithAddress (erase m) = true := by
  rw [startsWithKept] at h
  cases hrest : fits (cc.address.map isKept) m with
  | none =>
      rw [hrest] at h
      cases h
  | some rest =>
      rw [hrest] at h
      rw [startsWithAddress, fits_erase hrest]
      cases rest with
      | nil => rfl
      | cons x rest => exact h

theorem startsWithKept_of_dropped {mark : Mark} (h : mark ≠ .kept) (c : Char) (m : Marked) :
    startsWithKept cc ((c, mark) :: m) = false := by
  have hmark : (mark == .kept) = false := beq_false_of_ne h
  simp only [startsWithKept, address, octetColon, List.cons_append, List.map_cons, fits, isKept, hmark]
  rfl

theorem keptAddress_drop (s : Text) (m : Marked) : keptAddress cc (drop s ++ m) = keptAddress cc m := by
  have hrest (s : Text) : keptAddress cc ((s.map fun c ↦ (c, .rest)) ++ m) = keptAddress cc m := by
    induction s with
    | nil => rfl
    | cons c s ih =>
        rw [List.map_cons, List.cons_append, keptAddress,
          startsWithKept_of_dropped (by decide), Bool.false_or, ih]
  cases s with
  | nil => rfl
  | cons c s =>
      rw [drop, List.cons_append, keptAddress, startsWithKept_of_dropped (by decide),
        Bool.false_or, hrest]

/-- The octets of an address do not reach over a character that is dropped. -/
theorem startsWithKept_of_mem {pre m : Marked} {c : Char} (hlen : pre.length < 17) :
    startsWithKept cc (pre ++ ((c, .first) :: m)) = false := by
  rw [startsWithKept]
  cases hfits : fits (cc.address.map isKept) (pre ++ ((c, .first) :: m)) with
  | none => rfl
  | some rest =>
      obtain ⟨octets, hsplit, hoctets, hkept⟩ := eq_append_of_fits hfits
      have hmem : (c, Mark.first) ∈ octets := by
        rcases List.append_eq_append_iff.mp hsplit with ⟨tail, rfl, htail⟩ | ⟨tail, rfl, htail⟩
        · cases tail with
          | nil =>
              rw [List.append_nil] at hoctets
              rw [hoctets] at hlen
              exact absurd hlen (by simp [address, octetColon])
          | cons x tail =>
              obtain ⟨rfl, -⟩ := List.cons.inj htail
              simp
        · rw [List.length_append, hoctets] at hlen
          simp only [address, octetColon, List.cons_append, List.nil_append, List.map_cons, List.map_nil,
            List.length_cons, List.length_nil] at hlen
          omega
      obtain ⟨q, hq, hfirst⟩ := hkept _ hmem
      obtain ⟨q, -, rfl⟩ := List.mem_map.mp hq
      cases hfirst

theorem keptAddress_keep_drop {s dropped : Text} (hs : s.length < 17) (hdropped : dropped ≠ [])
    (m : Marked) : keptAddress cc (keep s ++ (drop dropped ++ m)) = keptAddress cc m := by
  induction s with
  | nil => exact keptAddress_drop dropped m
  | cons c s ih =>
      cases dropped with
      | nil => exact absurd rfl hdropped
      | cons d dropped =>
          have hlen : (keep (c :: s)).length < 17 := by
            rw [keep, List.length_map]
            exact hs
          have hstart : startsWithKept cc (keep (c :: s) ++ (drop (d :: dropped) ++ m)) = false :=
            startsWithKept_of_mem hlen
          have hstep : keptAddress cc (keep (c :: s) ++ (drop (d :: dropped) ++ m)) =
              (startsWithKept cc (keep (c :: s) ++ (drop (d :: dropped) ++ m)) ||
                keptAddress cc (keep s ++ (drop (d :: dropped) ++ m))) := rfl
          rw [hstep, hstart, Bool.false_or]
          exact ih (Nat.lt_of_succ_lt hs)

theorem keptAddress_mark (s : Text) : keptAddress cc (cc.mark s) = false := by
  induction s using scan_induction cc with
  | nil => rfl
  | none c cs h ih =>
      have hstart : startsWithKept cc ((c, .kept) :: cc.mark cs) = false := by
        apply Bool.eq_false_iff.mpr
        intro hkept
        have herase := startsWithAddress_erase hkept
        rw [← mark_of_none h, erase_mark, ← isSome_matchMac, h] at herase
        cases herase
      rw [mark_of_none h, keptAddress, hstart, ih]
      rfl
  | isMatch s group dropped after h hm ih =>
      have hlen : group.length < 17 := by
        rw [hm.length_group]
        decide
      rw [mark_of_isMatch h hm, keptAddress_keep_drop hlen hm.dropped_ne_nil, ih]

/-- What the substitution makes of a text has no address in it. -/
theorem search_sub (s : Text) : cc.search (cc.sub s) = false := by
  rw [← render_mark, search_render (placed_mark s .other), keptAddress_mark]

/-- The replacement is longer than what it replaces. -/
theorem length_le_length_sub (s : Text) : s.length ≤ (cc.sub s).length := by
  induction s using scan_induction cc with
  | nil => exact Nat.le_refl 0
  | none c cs h ih =>
      rw [sub_of_none h, List.length_cons, List.length_cons]
      omega
  | isMatch s group dropped after h hm ih =>
      have hlen := congrArg List.length hm.text
      have hdropped := hm.length_dropped
      rw [sub_of_isMatch h hm, List.length_append, List.length_append]
      rw [List.length_append, List.length_append] at hlen
      have hredacted : redacted.length = 10 := rfl
      omega

end CharClass

end OpenHtf.MacFilter
