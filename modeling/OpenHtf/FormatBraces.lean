import OpenHtf.FormatLaws
import Mathlib.Algebra.Order.BigOperators.Group.List
import Mathlib.Algebra.Order.Ring.Nat

/-!
# Values without braces

Values without an opening brace disturb no field, and for them it is known exactly
for which templates `partial_format` does what `str.format` does.
-/

set_option autoImplicit false

namespace OpenHtf.FormatTemplate

/-! ## No value disturbs a field -/

section Undisturbed

/-- No value or escape has an opening brace. -/
def RawBraceless (segs : List Seg) : Prop := ∀ s, .raw s ∈ segs → '\x7b' ∉ s

theorem rawBraceless_seg {T : Template} (hescapes : NoEscapes T) : RawBraceless (T.map Piece.seg) :=
  fun s hs ↦ absurd hs (raw_not_mem hescapes s)

theorem RawBraceless.fill {segs : List Seg} (h : RawBraceless segs)
    {g : List Char → Option (List Char)} (hg : ∀ v new, g v = some new → '\x7b' ∉ new) :
    RawBraceless (segs.map (Seg.fill g)) := by
  intro s hs
  obtain ⟨seg, hseg, hfill⟩ := List.mem_map.mp hs
  cases seg with
  | plain s' h' => cases hfill
  | raw s' =>
      obtain rfl : s' = s := Seg.raw.inj hfill
      exact h s' hseg
  | pending f =>
      rw [Seg.fill] at hfill
      cases hnew : g f.var with
      | none =>
          rw [hnew] at hfill
          cases hfill
      | some new =>
          rw [hnew] at hfill
          obtain rfl : new = s := Seg.raw.inj hfill
          exact hg f.var new hnew

theorem RawBraceless.noTagIn {segs : List Seg} (h : RawBraceless segs) (v : List Char) :
    NoTagIn (tagOf v) segs := by
  induction segs with
  | nil => trivial
  | cons seg segs ih =>
      have hrest : NoTagIn (tagOf v) segs := ih fun s hs ↦ h s (List.mem_cons_of_mem _ hs)
      cases seg with
      | raw s => exact ⟨fun t ht hne ↦ not_prefix_of_not_mem (h s List.mem_cons_self) ht hne, hrest⟩
      | _ => exact hrest

/-- The fields that are left are those for which nothing was inserted. -/
theorem pendingVars_fill (g : List Char → Option (List Char)) (segs : List Seg) :
    pendingVars (segs.map (Seg.fill g)) = (pendingVars segs).filter fun v ↦ g v = none := by
  induction segs with
  | nil => rfl
  | cons seg segs ih =>
      cases seg with
      | pending f =>
          have hvars : pendingVars (.pending f :: segs) = f.var :: pendingVars segs := rfl
          rw [List.map_cons, Seg.fill, hvars]
          cases hg : g f.var with
          | none =>
              rw [List.filter_cons_of_pos (by simpa), ← ih]
              rfl
          | some new =>
              rw [List.filter_cons_of_neg (by simp [hg]), ← ih]
              rfl
      | _ => exact ih

variable {V W : Type} {py : UserObjects V W} {K L : Kwargs V} {T : Template}

/-- A value that is inserted for one of the tags has no opening brace. -/
def InsertsBraceless (py : UserObjects V W) (K : Kwargs V) (vs : List (List Char)) : Prop :=
  ∀ v ∈ vs, ∀ new, formatted py K v = some (.ok new) → '\x7b' ∉ new

theorem clean_of_insertsBraceless {vs : List (List Char)} (hinserts : InsertsBraceless py K vs)
    {segs : List Seg} (hsegs : RawBraceless segs) : Clean py K vs segs := by
  induction vs generalizing segs with
  | nil => trivial
  | cons v vs ih =>
      obtain ⟨hv, hvs⟩ := List.forall_mem_cons.mp hinserts
      rw [Clean]
      cases hformatted : formatted py K v with
      | none => exact ih hvs hsegs
      | some r =>
          cases r with
          | error e => trivial
          | ok new =>
              refine ⟨hsegs.noTagIn v, ih hvs (hsegs.fill ?_)⟩
              intro u new' hnew'
              rw [single] at hnew'
              split at hnew'
              · obtain rfl := Option.some.inj hnew'
                exact hv new hformatted
              · cases hnew'

theorem formatted_of_insertion {vs : List (List Char)} {v new : List Char}
    (h : insertion py K vs v = some new) : v ∈ vs ∧ formatted py K v = some (.ok new) := by
  by_cases hv : v ∈ vs
  · rw [insertion_of_mem hv] at h
    obtain ⟨r, hr, hnew⟩ := Option.bind_eq_some_iff.mp h
    cases r with
    | error e => cases hnew
    | ok s =>
        obtain rfl : s = new := Option.some.inj hnew
        exact ⟨hv, hr⟩
  · rw [insertion_of_not_mem hv] at h
    cases h

theorem insertsBraceless_of_noBraces (hescapes : NoEscapes T) (hbraces : NoBraces py K T) :
    InsertsBraceless py K (tags T) := by
  intro v hv new hnew
  obtain ⟨⟨f, hf, rfl⟩, -⟩ := (mem_tags_iff hescapes).mp hv
  by_cases hnoted : f.form.Noted
  · cases hget : K.get f.name with
    | none =>
        rw [formatted_of_none hget] at hnew
        cases hnew
    | some value =>
        obtain ⟨new', hformat, hnew'⟩ := hbraces f hf value hget
        rw [formatted_of_noted hnoted hget, hformat] at hnew
        obtain rfl := Except.ok.inj (Option.some.inj hnew)
        exact hnew'
  · rw [formatted, get_rootOf_of_not_noted hnoted] at hnew
    cases hnew

theorem NoBraces.left (h : NoBraces py (K.union L) T) : NoBraces py K T := by
  intro f hf value hvalue
  apply h f hf value
  rw [Kwargs.get_union, hvalue, Option.some_or]

theorem NoBraces.right (hdisjoint : K.Disjoint L) (h : NoBraces py (K.union L) T) :
    NoBraces py L T := by
  intro f hf value hvalue
  apply h f hf value
  obtain hK | hL := hdisjoint f.name
  · rw [Kwargs.get_union, hK, Option.none_or, hvalue]
  · rw [hL] at hvalue
    cases hvalue

theorem rawBraceless_firstSegs (hescapes : NoEscapes T) (hbraces : NoBraces py K T) :
    RawBraceless (firstSegs py K T) := by
  apply (rawBraceless_seg hescapes).fill
  intro v new hnew
  obtain ⟨hv, hformatted⟩ := formatted_of_insertion hnew
  exact insertsBraceless_of_noBraces hescapes hbraces v hv new hformatted

/-- The second call finds the fields that the first one has left, and those that it
replaces are among them. -/
theorem known_findTags_firstSegs (hdisjoint : K.Disjoint L) (hescapes : NoEscapes T)
    (hbraces : NoBraces py K T) :
    known L (findTags none (text (firstSegs py K T))) = known L (tags T) := by
  rw [findTags_text (rawBraceless_firstSegs hescapes hbraces), tags_eq hescapes, firstSegs,
    pendingVars_fill, known, known, List.filter_filter, List.filter_filter, List.filter_filter]
  apply List.filter_congr
  intro v _
  obtain hK | hL := hdisjoint (rootOf v)
  · have hinsertion : insertion py K (tags T) v = none := by
      rw [insertion, formatted, hK]
      split <;> rfl
    simp [hinsertion]
  · simp [hL]

theorem undisturbed_of_noBraces (hdisjoint : K.Disjoint L) (hescapes : NoEscapes T)
    (hbraces : NoBraces py (K.union L) T) : Undisturbed py T K L where
  together := clean_of_insertsBraceless (insertsBraceless_of_noBraces hescapes hbraces)
    (rawBraceless_seg hescapes)
  firstCall := clean_of_insertsBraceless (insertsBraceless_of_noBraces hescapes hbraces.left)
    (rawBraceless_seg hescapes)
  found _ := known_findTags_firstSegs hdisjoint hescapes hbraces.left
  secondCall _ := clean_of_insertsBraceless
    (insertsBraceless_of_noBraces hescapes (hbraces.right hdisjoint))
    (rawBraceless_firstSegs hescapes hbraces.left)

end Undisturbed

/-! ## Where the laws fail -/

section Necessary

theorem eq_of_sum_eq {α : Type} {f g : α → ℕ} {as : List α} (hle : ∀ a ∈ as, f a ≤ g a)
    (hsum : (as.map f).sum = (as.map g).sum) : ∀ a ∈ as, f a = g a := by
  intro a ha
  by_contra hne
  have hlt : f a < g a := lt_of_le_of_ne (hle a ha) hne
  have := List.sum_lt_sum f g hle ⟨a, ha, hlt⟩
  omega

theorem flatten_mapM_eq_ok {f : Piece → Except PyExc (List Char)} {r : Piece → List Char}
    {T : Template} (h : ∀ piece ∈ T, f piece = .ok (r piece)) :
    List.flatten <$> T.mapM f = .ok (T.flatMap r) := by
  have hreturned : List.Forall₂ (Returned f) T (T.map r) := by
    rw [forall₂_returned_iff (P := fun _ ↦ True) (r := r)]
    · exact ⟨fun _ _ ↦ trivial, rfl⟩
    · intro piece hpiece b
      rw [h piece hpiece]
      constructor
      · intro hb
        exact ⟨trivial, (Except.ok.inj hb).symm⟩
      · rintro ⟨-, rfl⟩
        rfl
  rw [mapM_eq_ok_iff.mpr hreturned]
  rfl

variable {V W : Type} {py : UserObjects V W} {K L : Kwargs V} {T : Template}

/-- The text that stands for a piece when the values are without braces. -/
def rendered (py : UserObjects V W) (K : Kwargs V) (piece : Piece) : List Char :=
  match piece.render py K fun f ↦ .ok (tagOf f.var) with
  | .ok s => s
  | .error _ => []

theorem render_eq_rendered (hbraces : NoBraces py K T) {piece : Piece} (hpiece : piece ∈ T) :
    (piece.render py K fun f ↦ .ok (tagOf f.var)) = .ok (rendered py K piece) := by
  rw [rendered]
  cases piece with
  | field f =>
      rw [Piece.render]
      cases hget : K.get f.name with
      | none => rfl
      | some value =>
          obtain ⟨new, hnew, -⟩ := hbraces f hpiece value hget
          simp [hnew]
  | _ => rfl

theorem substitute_eq_rendered (hbraces : NoBraces py K T) :
    substitute py K T = .ok (T.flatMap (rendered py K)) :=
  flatten_mapM_eq_ok fun _ hpiece ↦ render_eq_rendered hbraces hpiece

theorem count_tagOf_var (f : Field) : List.count '\x7b' (tagOf f.var) = 1 := by
  have hvar : List.count '\x7b' f.var = 0 := List.count_eq_zero.mpr f.braceless_var.1
  simp [tagOf, hvar]

theorem count_rendered_of_none {f : Field} (h : K.get f.name = none) :
    List.count '\x7b' (rendered py K (.field f)) = 1 := by
  simp [rendered, Piece.render, h, count_tagOf_var]

theorem count_rendered_of_some (hbraces : NoBraces py K T) {f : Field} (hf : .field f ∈ T)
    (h : (K.get f.name).isSome) : List.count '\x7b' (rendered py K (.field f)) = 0 := by
  obtain ⟨value, hvalue⟩ := Option.isSome_iff_exists.mp h
  obtain ⟨new, hnew, hbrace⟩ := hbraces f hf value hvalue
  have hrendered : rendered py K (.field f) = new := by
    simp [rendered, Piece.render, hvalue, hnew]
  rw [hrendered]
  exact List.count_eq_zero.mpr hbrace

/-- A piece in what the code returns. -/
def filled (py : UserObjects V W) (K : Kwargs V) (T : Template) (piece : Piece) : List Char :=
  (piece.seg.fill (insertion py K (tags T))).text

theorem count_filled_of_none {f : Field} (h : insertion py K (tags T) f.var = none) :
    List.count '\x7b' (filled py K T (.field f)) = 1 := by
  simp [filled, Piece.seg, Seg.fill, h, Seg.text, count_tagOf_var]

theorem count_rendered_le (hescapes : NoEscapes T) (hbraces : NoBraces py K T) {piece : Piece}
    (hpiece : piece ∈ T) :
    List.count '\x7b' (rendered py K piece) ≤ List.count '\x7b' (filled py K T piece) := by
  cases piece with
  | text s h => exact le_refl _
  | openBrace => exact absurd hpiece hescapes.1
  | closeBrace => exact absurd hpiece hescapes.2
  | field f =>
      cases hget : K.get f.name with
      | some value =>
          rw [count_rendered_of_some hbraces hpiece (by simp [hget])]
          exact Nat.zero_le _
      | none =>
          have hinsertion : insertion py K (tags T) f.var = none := by
            rw [insertion, formatted_of_none hget]
            split <;> rfl
          rw [count_rendered_of_none hget, count_filled_of_none hinsertion]

/-- If no field with an argument keeps its brace, they are all recognised. -/
theorem recognised_of_partialFormat (hescapes : NoEscapes T) (htarget : K.get "target".toList = none)
    (hbraces : NoBraces py K T)
    (h : ∀ t, partialFormat py K (source T) = .ok t ↔ substitute py K T = .ok t) :
    Recognised K T := by
  have hclean : Clean py K (tags T) (T.map Piece.seg) :=
    clean_of_insertsBraceless (insertsBraceless_of_noBraces hescapes hbraces) (rawBraceless_seg hescapes)
  have hresult := (h _).mpr (substitute_eq_rendered hbraces)
  obtain ⟨-, htext⟩ := (partialFormat_source_eq_ok_iff hescapes htarget hclean _).mp hresult
  -- The two texts have equally many braces, and a field that the code leaves has one of them.
  have hsum := congrArg (List.count '\x7b') htext
  rw [text, List.flatMap_map, List.flatMap_map, List.count_flatMap, List.count_flatMap] at hsum
  have hcount := eq_of_sum_eq (fun piece hpiece ↦ count_rendered_le hescapes hbraces hpiece) hsum
  intro f hf hsome
  obtain ⟨new, hnew⟩ : ∃ new, insertion py K (tags T) f.var = some new := by
    apply Option.ne_none_iff_exists'.mp
    intro hnone
    have hone := hcount _ hf
    rw [count_rendered_of_some hbraces hf hsome, count_filled_of_none hnone] at hone
    omega
  obtain ⟨hmem, hformatted⟩ := formatted_of_insertion hnew
  constructor
  · by_contra hnoted
    rw [formatted, get_rootOf_of_not_noted hnoted] at hformatted
    cases hformatted
  · exact ((mem_tags_iff hescapes).mp hmem).2

/-- A piece in what `str.format` returns. -/
def unescaped (py : UserObjects V W) (K : Kwargs V) : Piece → List Char
  | .openBrace => ['\x7b']
  | .closeBrace => ['\x7d']
  | piece => rendered py K piece

theorem strFormat_eq_unescaped (hbraces : NoBraces py K T)
    (hall : ∀ f, .field f ∈ T → (K.get f.name).isSome) :
    strFormat py K T = .ok (T.flatMap (unescaped py K)) := by
  apply flatten_mapM_eq_ok
  intro piece hpiece
  cases piece with
  | field f =>
      obtain ⟨value, hvalue⟩ := Option.isSome_iff_exists.mp (hall f hpiece)
      rw [unescaped, ← render_eq_rendered hbraces hpiece]
      · simp [Piece.render, hvalue]
      · simp
      · simp
  | _ => rfl

theorem length_unescaped_le (piece : Piece) :
    (unescaped py K piece).length ≤ (rendered py K piece).length := by
  cases piece with
  | openBrace => exact Nat.le_succ 1
  | closeBrace => exact Nat.le_succ 1
  | _ => exact le_refl _

/-- An escape is longer than the brace it stands for. -/
theorem noEscapes_of_strFormat (hbraces : NoBraces py K T)
    (hall : ∀ f, .field f ∈ T → (K.get f.name).isSome)
    (h : ∀ t, strFormat py K T = .ok t ↔ substitute py K T = .ok t) : NoEscapes T := by
  have hresult := (h _).mp (strFormat_eq_unescaped hbraces hall)
  rw [substitute_eq_rendered hbraces] at hresult
  have hlength := congrArg List.length (Except.ok.inj hresult).symm
  rw [List.length_flatMap, List.length_flatMap] at hlength
  have heq := eq_of_sum_eq (fun piece _ ↦ length_unescaped_le piece) hlength
  constructor
  · intro hmem
    have htwo : 1 = 2 := heq _ hmem
    omega
  · intro hmem
    have htwo : 1 = 2 := heq _ hmem
    omega

end Necessary

/-! ## The laws -/

section Laws

variable {V W : Type} {py : UserObjects V W} {T : Template}

/-- What the code can do: there are no escapes, no argument has the name of its own
parameter, and the fields with an argument are recognised. -/
structure Supported (K : Kwargs V) (T : Template) : Prop where
  escapes : NoEscapes T
  target : K.get "target".toList = none
  recognised : Recognised K T

theorem get_target_of_partialFormat {K : Kwargs V} {s t : List Char}
    (h : partialFormat py K s = .ok t) : K.get "target".toList = none := by
  by_contra hne
  have hsome : (K.items.lookup "target").isSome := by
    rw [Kwargs.get, String.ofList_toList] at hne
    exact Option.isSome_iff_ne_none.mpr hne
  rw [partialFormat, UserObjects.partialFormat, if_pos hsome] at h
  cases h

theorem supported_of_formatLaws {first second : Kwargs V}
    (hbraces : NoBraces py (first.union second) T)
    (hwhole : NoEscapes T ∨ ∀ f, .field f ∈ T → ((first.union second).get f.name).isSome)
    (hlaws : FormatLaws py T first second) : Supported (first.union second) T := by
  have htarget : (first.union second).get "target".toList = none :=
    get_target_of_partialFormat ((hlaws.verbatim _).mpr (substitute_eq_rendered hbraces))
  have hescapes : NoEscapes T := by
    obtain hescapes | hall := hwhole
    · exact hescapes
    · apply noEscapes_of_strFormat hbraces hall
      intro t
      exact (hlaws.agrees hall t).symm.trans (hlaws.verbatim t)
  exact ⟨hescapes, htarget, recognised_of_partialFormat hescapes htarget hbraces hlaws.verbatim⟩

/-- Where the code can do it and no value disturbs a field, `partial_format` does
what `str.format` does, in one call or in two, and substitutes into no value.  Values
without braces disturb none, and for them it does so only there. -/
theorem partialFormat_laws {first second : Kwargs V} (hdisjoint : first.Disjoint second) :
    (Supported (first.union second) T → Undisturbed py T first second →
      FormatLaws py T first second) ∧
    (NoBraces py (first.union second) T →
      (NoEscapes T ∨ ∀ f, .field f ∈ T → ((first.union second).get f.name).isSome) →
      (FormatLaws py T first second ↔ Supported (first.union second) T)) := by
  have henough : Supported (first.union second) T → Undisturbed py T first second →
      FormatLaws py T first second := fun hsupported ↦
    formatLaws_of_undisturbed hdisjoint hsupported.escapes hsupported.target hsupported.recognised
  refine ⟨henough, fun hbraces hwhole ↦ ⟨supported_of_formatLaws hbraces hwhole, ?_⟩⟩
  intro hsupported
  exact henough hsupported (undisturbed_of_noBraces hdisjoint hsupported.escapes hbraces)

end Laws

/-! ## Texts as arguments -/

section Strings

/-- Texts, which format themselves as they are. -/
def strings : UserObjects (List Char) Unit where
  format _ _ value := .ok value
  percent target _ := .ok target
  issubclass _ _ := .ok false
  autoPlaceholder _ := false
  withArgs _ := none
  camelize name := name

def noArguments : Kwargs (List Char) := ⟨[], nofun⟩

def argument (c : Char) (h : IsName [c]) (value : List Char) : Kwargs (List Char) where
  items := [(String.ofList [c], value)]
  names := by
    intro item hitem
    obtain rfl := List.mem_singleton.mp hitem
    rwa [String.toList_ofList]

theorem get_argument_of_ne {c : Char} {h : IsName [c]} {value name : List Char} (hne : name ≠ [c]) :
    (argument c h value).get name = none := by
  have hkey : String.ofList name ≠ String.ofList [c] := fun hkey ↦ hne (String.ofList_injective hkey)
  rw [Kwargs.get, argument, List.lookup_cons, beq_false_of_ne hkey]
  rfl

theorem disjoint_argument {c d : Char} {hc : IsName [c]} {hd : IsName [d]} (hne : c ≠ d)
    (value value' : List Char) : (argument c hc value).Disjoint (argument d hd value') := by
  intro name
  by_cases hname : name = [c]
  · right
    apply get_argument_of_ne
    rw [hname]
    intro h
    exact hne (List.singleton_inj.mp h)
  · left
    exact get_argument_of_ne hname

/-- A field with one letter between the braces, and a form behind it. -/
def letter (c : Char) (form : Form) (hname : IsName [c]) (hform : Braceless form.text) : Piece :=
  .field ⟨[c], form, hname, hform⟩

def spaced : Template :=
  [letter 'a' .bare (by decide) (by decide), .text [' '] (by decide),
    letter 'b' .bare (by decide) (by decide)]

def adjacent : Template :=
  [letter 'a' .bare (by decide) (by decide), letter 'b' .bare (by decide) (by decide)]

def alone : Template := [letter 'a' .bare (by decide) (by decide)]

def converted : Template := [letter 'a' (.conv 's') (by decide) (by decide)]

def argA (value : List Char) : Kwargs (List Char) := argument 'a' (by decide) value

def argB (value : List Char) : Kwargs (List Char) := argument 'b' (by decide) value

theorem disjoint_argA_argB (value value' : List Char) : (argA value).Disjoint (argB value') :=
  disjoint_argument (by decide) value value'

theorem disjoint_noArguments (K : Kwargs (List Char)) : K.Disjoint noArguments := fun _ ↦ .inr rfl

/-- The value for the first field has braces of its own, but not those of a field; of
a conversion the laws hold as little as it is supported. -/
theorem partialFormat_laws_spaced :
    FormatLaws strings spaced (argA ['\x7b', 'z', '\x7d']) (argB ['B']) ∧
      (FormatLaws strings converted (argA ['A']) noArguments ↔
        Supported ((argA ['A']).union noArguments) converted) := by
  constructor
  · apply (partialFormat_laws (disjoint_argA_argB _ _)).1
    · refine ⟨by simp [NoEscapes, spaced, letter], by decide, ?_⟩
      intro f hf _
      simp only [spaced, letter, List.mem_cons, List.not_mem_nil, Piece.field.injEq, or_false,
        reduceCtorEq, false_or] at hf
      obtain rfl | rfl := hf
      · exact ⟨trivial, by decide⟩
      · exact ⟨trivial, by decide⟩
    · exact ⟨by decide, by decide, fun _ ↦ by decide, fun _ ↦ by decide⟩
  · apply (partialFormat_laws (disjoint_noArguments _)).2
    · intro f hf value hvalue
      obtain rfl := Piece.field.inj (List.mem_singleton.mp hf)
      obtain rfl : ['A'] = value := Option.some.inj hvalue
      exact ⟨['A'], rfl, by decide⟩
    · exact .inl (by simp [NoEscapes, converted, letter])

/-- A conversion is no dot or dict notation, so it is left as it is. -/
theorem not_formatLaws_converted : ¬FormatLaws strings converted (argA ['A']) noArguments := by
  intro h
  have hresult := (h.agrees ?_ ['A']).mpr (by decide)
  · revert hresult
    decide
  · intro f hf
    obtain rfl := Piece.field.inj (List.mem_singleton.mp hf)
    rfl

/-- What was inserted for one field is taken for the next one. -/
theorem not_formatLaws_adjacent :
    ¬FormatLaws strings adjacent (argA ['\x7b', 'b', '\x7d']) (argB ['B']) := by
  intro h
  have hresult := (h.verbatim ['\x7b', 'b', '\x7d', 'B']).mpr (by decide)
  revert hresult
  decide

/-- What was inserted by one call is taken for a field by the next one. -/
theorem not_formatLaws_alone :
    ¬FormatLaws strings alone (argA ['\x7b', 'b', '\x7d']) (argB ['B']) := by
  intro h
  have hresult := (h.twice ['\x7b', 'b', '\x7d']).mpr (by decide)
  revert hresult
  decide

theorem partialFormat_laws_fail : ¬FormatLaws strings converted (argA ['A']) noArguments ∧
    ¬FormatLaws strings adjacent (argA ['\x7b', 'b', '\x7d']) (argB ['B']) ∧
    ¬FormatLaws strings alone (argA ['\x7b', 'b', '\x7d']) (argB ['B']) :=
  ⟨not_formatLaws_converted, not_formatLaws_adjacent, not_formatLaws_alone⟩

end Strings

end OpenHtf.FormatTemplate
