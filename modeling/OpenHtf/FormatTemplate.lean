import OpenHtf.FormatString
import Mathlib.Data.List.Infix

/-!
# Format templates

Templates of `str.format` with named fields, what `str.format` makes of them, and
what `re.findall` and `str.replace` do to a text of which some fields have been
replaced already.
-/

set_option autoImplicit false

namespace OpenHtf.FormatTemplate

/-! ## Templates -/

def Braceless (s : List Char) : Prop := '\x7b' ∉ s ∧ '\x7d' ∉ s

instance (s : List Char) : Decidable (Braceless s) := inferInstanceAs (Decidable (_ ∧ _))

/-- The characters that end the name in a field, or are not part of any name. -/
def specials : List Char := ['\x7b', '\x7d', '.', '[', ']', ':', '!', '\n']

/-- A name for a keyword argument; a number would be the place of a positional one. -/
def IsName (s : List Char) : Prop := (∃ c ∈ s, ¬c.isDigit) ∧ ∀ c ∈ s, c ∉ specials

instance (s : List Char) : Decidable (IsName s) :=
  @instDecidableAnd _ _ (List.decidableBEx _ s) (List.decidableBAll _ s)

/-- What stands behind the name in a field. -/
inductive Form where
  | bare
  | attr (a : List Char)
  | key (k : List Char)
  | spec (s : List Char)
  | conv (c : Char)
  deriving DecidableEq

def Form.text : Form → List Char
  | bare => []
  | attr a => '.' :: a
  | key k => '[' :: (k ++ [']'])
  | spec s => ':' :: s
  | conv c => ['!', c]

structure Field where
  name : List Char
  form : Form
  isName : IsName name
  braceless : Braceless form.text

def Field.var (f : Field) : List Char := f.name ++ f.form.text

inductive Piece where
  | text (s : List Char) (h : Braceless s)
  | openBrace
  | closeBrace
  | field (f : Field)

def Piece.source : Piece → List Char
  | text s _ => s
  | openBrace => ['\x7b', '\x7b']
  | closeBrace => ['\x7d', '\x7d']
  | field f => tagOf f.var

abbrev Template := List Piece

def source (T : Template) : List Char := T.flatMap Piece.source

/-- Keyword arguments. -/
structure Kwargs (V : Type) where
  items : List (String × V)
  names : ∀ item ∈ items, IsName item.1.toList

namespace Kwargs

variable {V : Type}

def get (K : Kwargs V) (name : List Char) : Option V := K.items.lookup (String.ofList name)

def union (K L : Kwargs V) : Kwargs V where
  items := K.items ++ L.items
  names := by
    intro item hitem
    obtain h | h := List.mem_append.mp hitem
    · exact K.names item h
    · exact L.names item h

theorem get_union (K L : Kwargs V) (name : List Char) :
    (K.union L).get name = (K.get name).or (L.get name) := List.lookup_append

/-- Only names have values. -/
theorem isName_of_get {K : Kwargs V} {name : List Char} {value : V} (h : K.get name = some value) :
    IsName name := by
  have hmem : (String.ofList name, value) ∈ K.items := by
    have := List.lookup_eq_some_iff.mp h
    obtain ⟨l₁, l₂, hitems, -⟩ := this
    rw [hitems]
    simp
  have hname := K.names _ hmem
  rwa [String.toList_ofList] at hname

end Kwargs

/-! ## What `str.format` does -/

section Formatting

variable {V W : Type} (py : UserObjects V W) (K : Kwargs V)

/-- The text that stands for a piece, where `missing` says what to do with a field
for which there is no argument. -/
def Piece.render (missing : Field → Except PyExc (List Char)) : Piece → Except PyExc (List Char)
  | field f =>
    match K.get f.name with
    | none => missing f
    | some value => py.format (tagOf f.var) f.name value
  | piece => .ok piece.source

/-- `target.format(**kwargs)`: every field is replaced, and a brace written twice
stands for one. -/
def strFormat (T : Template) : Except PyExc (List Char) :=
  List.flatten <$> T.mapM fun piece ↦
    match piece with
    | .openBrace => .ok ['\x7b']
    | .closeBrace => .ok ['\x7d']
    | piece => piece.render py K fun f ↦ .error (.ofClass .KeyError (String.ofList f.name))

/-- The template with the fields for which there are arguments replaced, all at once,
and everything else as it stands. -/
def substitute (T : Template) : Except PyExc (List Char) :=
  List.flatten <$> T.mapM (Piece.render py K fun f ↦ .ok (tagOf f.var))

end Formatting

/-! ## Texts with some fields replaced -/

/-- A part of such a text: text of the template, a field that is still there, or
text in which braces mean nothing, that is, a value or an escape. -/
inductive Seg where
  | plain (s : List Char) (h : Braceless s)
  | pending (f : Field)
  | raw (s : List Char)

namespace Seg

def text : Seg → List Char
  | plain s _ => s
  | pending f => tagOf f.var
  | raw s => s

/-- Fields are replaced by what `g` has for them. -/
def fill (g : List Char → Option (List Char)) : Seg → Seg
  | pending f =>
    match g f.var with
    | some new => raw new
    | none => pending f
  | seg => seg

theorem fill_fill (g h : List Char → Option (List Char)) (seg : Seg) :
    (seg.fill g).fill h = seg.fill fun v ↦ (g v).or (h v) := by
  cases seg with
  | pending f => cases hg : g f.var <;> simp [fill, hg]
  | _ => rfl

end Seg

def Piece.seg : Piece → Seg
  | text s h => .plain s h
  | openBrace => .raw ['\x7b', '\x7b']
  | closeBrace => .raw ['\x7d', '\x7d']
  | field f => .pending f

def text (segs : List Seg) : List Char := segs.flatMap Seg.text

@[simp] theorem text_cons (seg : Seg) (segs : List Seg) : text (seg :: segs) = seg.text ++ text segs := rfl

theorem text_segs (T : Template) : text (T.map Piece.seg) = source T := by
  induction T with
  | nil => rfl
  | cons piece T ih => cases piece <;> simp [ih, Piece.seg, Seg.text, source, Piece.source]

def single (v new : List Char) : List Char → Option (List Char) := fun u ↦ if u = v then some new else none

/-- No place in a value or an escape is the start of the tag. -/
def NoTagIn (tag : List Char) : List Seg → Prop
  | [] => True
  | .raw s :: rest => (∀ t, t <:+ s → t ≠ [] → ¬tag <+: t ++ text rest) ∧ NoTagIn tag rest
  | _ :: rest => NoTagIn tag rest

instance decidableNoTagIn (tag : List Char) : (segs : List Seg) → Decidable (NoTagIn tag segs)
  | [] => isTrue trivial
  | .plain _ _ :: rest => decidableNoTagIn tag rest
  | .pending _ :: rest => decidableNoTagIn tag rest
  | .raw s :: rest =>
      have := decidableNoTagIn tag rest
      decidable_of_iff ((∀ t ∈ s.tails, t ≠ [] → ¬tag <+: t ++ text rest) ∧ NoTagIn tag rest)
        (by simp only [NoTagIn, List.mem_tails])

/-! ## Replacing a tag -/

section Replace

variable {old new : List Char}

theorem replaceFrom_skip (old new skipped rest : List Char) :
    replaceFrom old new skipped.length (skipped ++ rest) = replaceFrom old new 0 rest := by
  induction skipped with
  | nil => rfl
  | cons c skipped ih =>
      rw [List.length_cons, List.cons_append, replaceFrom]
      exact ih

theorem replaceFrom_prefix_append (c : Char) (old new rest : List Char) :
    replaceFrom (c :: old) new 0 (c :: old ++ rest) = new ++ replaceFrom (c :: old) new 0 rest := by
  have hprefix : (c :: old).isPrefixOf (c :: (old ++ rest)) = true := by
    rw [List.isPrefixOf_iff_prefix]
    exact ⟨rest, rfl⟩
  rw [List.cons_append, replaceFrom, if_pos hprefix, List.length_cons, Nat.add_sub_cancel,
    replaceFrom_skip]

/-- Characters at which no occurrence starts are kept. -/
theorem replaceFrom_append {s rest : List Char} (h : ∀ t, t <:+ s → t ≠ [] → ¬old <+: t ++ rest) :
    replaceFrom old new 0 (s ++ rest) = s ++ replaceFrom old new 0 rest := by
  induction s with
  | nil => rfl
  | cons c s ih =>
      have hprefix := h (c :: s) (List.suffix_refl _) (List.cons_ne_nil c s)
      rw [← List.isPrefixOf_iff_prefix, List.cons_append] at hprefix
      rw [List.cons_append, replaceFrom, if_neg hprefix, List.cons_append]
      exact congrArg (c :: ·) (ih fun t ht ↦ h t (ht.trans (List.suffix_cons c s)))

/-- A tag starts with its brace. -/
theorem not_prefix_of_not_mem {v s rest : List Char} (hs : '\x7b' ∉ s) {t : List Char} (ht : t <:+ s)
    (hne : t ≠ []) : ¬tagOf v <+: t ++ rest := by
  obtain ⟨c, t, rfl⟩ := List.exists_cons_of_ne_nil hne
  intro hprefix
  obtain rfl : '\x7b' = c := (List.cons_prefix_cons.mp hprefix).1
  exact hs (ht.subset List.mem_cons_self)

/-- Two tags at one place are the same. -/
theorem eq_of_prefix_tagOf {u v rest : List Char} (hu : '\x7d' ∉ u) (hv : '\x7d' ∉ v)
    (h : tagOf v <+: tagOf u ++ rest) : v = u := by
  have h : v ++ ['\x7d'] <+: u ++ '\x7d' :: rest := by
    simpa [tagOf] using h
  clear * - h hu hv
  -- Neither has a closing brace, so that both end at the same one.
  induction v generalizing u with
  | nil =>
      cases u with
      | nil => rfl
      | cons c u =>
          obtain ⟨rfl, -⟩ := List.cons_prefix_cons.mp h
          exact absurd List.mem_cons_self hu
  | cons c v ih =>
      cases u with
      | nil =>
          obtain ⟨rfl, -⟩ := List.cons_prefix_cons.mp h
          exact absurd List.mem_cons_self hv
      | cons d u =>
          obtain ⟨rfl, htail⟩ := List.cons_prefix_cons.mp h
          rw [List.mem_cons, not_or] at hu hv
          rw [ih hu.2 hv.2 htail]

theorem Field.braceless_var (f : Field) : Braceless f.var := by
  have hname : ∀ c ∈ f.name, c ≠ '\x7b' ∧ c ≠ '\x7d' := by
    intro c hc
    have hspecial := f.isName.2 c hc
    constructor
    · rintro rfl
      exact hspecial (by decide)
    · rintro rfl
      exact hspecial (by decide)
  constructor
  · intro h
    obtain h | h := List.mem_append.mp h
    · exact (hname _ h).1 rfl
    · exact f.braceless.1 h
  · intro h
    obtain h | h := List.mem_append.mp h
    · exact (hname _ h).2 rfl
    · exact f.braceless.2 h

/-- Replacing a tag replaces the fields with it, if it starts nowhere else. -/
theorem replaceFrom_text {v new : List Char} (hv : '\x7d' ∉ v) {segs : List Seg}
    (hnone : NoTagIn (tagOf v) segs) :
    replaceFrom (tagOf v) new 0 (text segs) = text (segs.map (Seg.fill (single v new))) := by
  induction segs with
  | nil => rfl
  | cons seg segs ih =>
      cases seg with
      | plain s h =>
          rw [text_cons, Seg.text, replaceFrom_append fun t ht hne ↦ not_prefix_of_not_mem h.1 ht hne, ih hnone]
          rfl
      | raw s =>
          rw [text_cons, Seg.text, replaceFrom_append hnone.1, ih hnone.2]
          rfl
      | pending f =>
          by_cases hf : f.var = v
          · have hfill : (Seg.pending f).fill (single v new) = .raw new := by
              simp [Seg.fill, single, hf]
            rw [text_cons, List.map_cons, hfill, text_cons, Seg.text, hf]
            exact (replaceFrom_prefix_append '\x7b' (v ++ ['\x7d']) new (text segs)).trans
              (congrArg (new ++ ·) (ih hnone))
          · have hfill : (Seg.pending f).fill (single v new) = .pending f := by
              simp [Seg.fill, single, hf]
            have hstart : ∀ t, t <:+ tagOf f.var → t ≠ [] → ¬tagOf v <+: t ++ text segs := by
              intro t ht hne hprefix
              obtain rfl | ht := List.suffix_cons_iff.mp ht
              · exact hf (eq_of_prefix_tagOf f.braceless_var.2 hv hprefix).symm
              · refine not_prefix_of_not_mem ?_ ht hne hprefix
                simpa using f.braceless_var.1
            rw [text_cons, List.map_cons, hfill, text_cons, Seg.text, replaceFrom_append hstart, ih hnone]

end Replace

/-! ## Finding tags -/

section Find

theorem findTags_skip {s : List Char} (hs : '\x7b' ∉ s) (rest : List Char) :
    findTags none (s ++ rest) = findTags none rest := by
  induction s with
  | nil => rfl
  | cons c s ih =>
      rw [List.mem_cons, not_or] at hs
      rw [List.cons_append, findTags, if_neg (Ne.symm hs.1), ih hs.2]

theorem findTags_some {inside s : List Char} (hs : '\x7d' ∉ s) (hline : '\n' ∉ s) (rest : List Char) :
    findTags (some inside) (s ++ '\x7d' :: rest) = (inside.reverse ++ s) :: findTags none rest := by
  induction s generalizing inside with
  | nil => simp [findTags]
  | cons c s ih =>
      rw [List.mem_cons, not_or] at hs hline
      rw [List.cons_append, findTags, if_neg (Ne.symm hs.1), if_neg (Ne.symm hline.1), ih hs.2 hline.2]
      simp

/-- A newline ends the search for the end of a tag. -/
theorem findTags_some_of_newline {inside s : List Char} (hs : Braceless s) (hline : '\n' ∈ s)
    (rest : List Char) : findTags (some inside) (s ++ '\x7d' :: rest) = findTags none rest := by
  induction s generalizing inside with
  | nil => cases hline
  | cons c s ih =>
      obtain ⟨hopen, hclose⟩ := hs
      rw [List.mem_cons, not_or] at hopen hclose
      rw [List.cons_append, findTags, if_neg (Ne.symm hclose.1)]
      by_cases hc : c = '\n'
      · rw [if_pos hc, findTags_skip hopen.2, findTags, if_neg (by decide)]
      · rw [if_neg hc]
        exact ih ⟨hopen.2, hclose.2⟩ ((List.mem_cons.mp hline).resolve_left (Ne.symm hc))

/-- The fields that are still there, by what stands between their braces. -/
def pendingVars (segs : List Seg) : List (List Char) :=
  segs.filterMap fun seg ↦
    match seg with
    | .pending f => some f.var
    | _ => none

/-- Where no value or escape has an opening brace, the tags that are found are the
fields without a newline. -/
theorem findTags_text {segs : List Seg} (hraw : ∀ s, .raw s ∈ segs → '\x7b' ∉ s) :
    findTags none (text segs) = (pendingVars segs).filter fun v ↦ '\n' ∉ v := by
  induction segs with
  | nil => rfl
  | cons seg segs ih =>
      have hrest := ih fun s hs ↦ hraw s (List.mem_cons_of_mem _ hs)
      cases seg with
      | plain s h =>
          rw [text_cons, Seg.text, findTags_skip h.1, hrest]
          rfl
      | raw s =>
          rw [text_cons, Seg.text, findTags_skip (hraw s List.mem_cons_self), hrest]
          rfl
      | pending f =>
          have htags : findTags none (tagOf f.var ++ text segs) =
              findTags (some []) (f.var ++ '\x7d' :: text segs) := by
            simp [tagOf, findTags]
          have hvars : pendingVars (.pending f :: segs) = f.var :: pendingVars segs := rfl
          rw [text_cons, Seg.text, htags, hvars]
          by_cases hline : '\n' ∈ f.var
          · rw [findTags_some_of_newline f.braceless_var hline, hrest, List.filter_cons_of_neg (by simpa)]
          · rw [findTags_some f.braceless_var.2 hline, hrest, List.filter_cons_of_pos (by simpa)]
            rfl

end Find

end OpenHtf.FormatTemplate
