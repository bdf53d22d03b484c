import OpenHtf.FormatTemplate
import OpenHtf.Lib.ExceptMap

/-!
# Partial substitution and `str.format`

When `partial_format` agrees with `str.format`, when two calls come to the same as
one, and when the values that were inserted are left alone.
-/

set_option autoImplicit false

namespace OpenHtf.FormatTemplate

section Laws

variable {V W : Type} (py : UserObjects V W)

/-! ## The laws -/

/-- `partial_format(s, **kwargs)`. -/
def partialFormat (K : Kwargs V) (s : List Char) : Except PyExc (List Char) :=
  String.toList <$> py.partialFormat (String.ofList s) K.items

def Kwargs.Disjoint (K L : Kwargs V) : Prop := ∀ name, K.get name = none ∨ L.get name = none

/-- With an argument for every name `partial_format` does what `str.format` does,
two calls do what one does, and the result is the template with the fields replaced
all at once, so that no value is substituted into. -/
structure FormatLaws (T : Template) (first second : Kwargs V) : Prop where
  agrees : (∀ f, .field f ∈ T → ((first.union second).get f.name).isSome) →
    ∀ t, partialFormat py (first.union second) (source T) = .ok t ↔
      strFormat py (first.union second) T = .ok t
  twice : ∀ t, (partialFormat py first (source T) >>= partialFormat py second) = .ok t ↔
    partialFormat py (first.union second) (source T) = .ok t
  verbatim : ∀ t, partialFormat py (first.union second) (source T) = .ok t ↔
    substitute py (first.union second) T = .ok t

/-! ## When it is so -/

/-- No brace is written twice. -/
def NoEscapes (T : Template) : Prop := .openBrace ∉ T ∧ .closeBrace ∉ T

/-- Dot and dict notation. -/
def Form.Noted : Form → Prop
  | spec _ | conv _ => False
  | _ => True

/-- There is no newline in a field for which there is an argument, and its name ends
where a dot or a bracket stands, or with the field. -/
def Recognised (K : Kwargs V) (T : Template) : Prop :=
  ∀ f, .field f ∈ T → (K.get f.name).isSome → f.form.Noted ∧ '\n' ∉ f.var

/-- What the code makes of a tag, if it has an argument for what it takes for its name. -/
def formatted (K : Kwargs V) (v : List Char) : Option (Except PyExc (List Char)) :=
  (K.get (rootOf v)).map (py.format (tagOf v) (rootOf v))

/-- What is inserted for a field, if its tag is one of those. -/
def insertion (K : Kwargs V) (tags : List (List Char)) (v : List Char) : Option (List Char) :=
  if tags.contains v then (formatted py K v).bind Except.toOption else none

/-- Each of the tags, when it is replaced, starts nowhere in a value or an escape. -/
def Clean (K : Kwargs V) : List (List Char) → List Seg → Prop
  | [], _ => True
  | v :: tags, segs =>
    match formatted py K v with
    | none => Clean K tags segs
    | some (.error _) => True
    | some (.ok new) => NoTagIn (tagOf v) segs ∧ Clean K tags (segs.map (Seg.fill (single v new)))

instance decidableClean (K : Kwargs V) :
    (vs : List (List Char)) → (segs : List Seg) → Decidable (Clean py K vs segs)
  | [], _ => isTrue trivial
  | v :: vs, segs =>
      match h : formatted py K v with
      | none =>
          have := decidableClean K vs segs
          decidable_of_iff (Clean py K vs segs) (by rw [Clean, h])
      | some (.error _) => isTrue (by rw [Clean, h]; trivial)
      | some (.ok new) =>
          have := decidableClean K vs (segs.map (Seg.fill (single v new)))
          decidable_of_iff (NoTagIn (tagOf v) segs ∧ Clean py K vs (segs.map (Seg.fill (single v new))))
            (by rw [Clean, h])

def tags (T : Template) : List (List Char) := findTags none (source T)

/-- The parts of the text that the first call returns. -/
def firstSegs (K : Kwargs V) (T : Template) : List Seg :=
  (T.map Piece.seg).map (Seg.fill (insertion py K (tags T)))

/-- The tags for which there are arguments. -/
def known (K : Kwargs V) (tags : List (List Char)) : List (List Char) :=
  tags.filter fun v ↦ (K.get (rootOf v)).isSome

/-- Nothing that is inserted for one of the tags raises. -/
def Formats (K : Kwargs V) (tags : List (List Char)) : Prop :=
  ∀ v ∈ tags, ∀ r, formatted py K v = some r → ∃ new, r = .ok new

/-- No value has the start of a field that is replaced after it, neither in one call
nor in the two, and the second call finds just the fields of the template. -/
structure Undisturbed (T : Template) (first second : Kwargs V) : Prop where
  together : Clean py (first.union second) (tags T) (T.map Piece.seg)
  firstCall : Clean py first (tags T) (T.map Piece.seg)
  found : Formats py first (tags T) →
    known second (findTags none (text (firstSegs py first T))) = known second (tags T)
  secondCall : Formats py first (tags T) → Clean py second (tags T) (firstSegs py first T)

/-- All values that are inserted are without an opening brace. -/
def NoBraces (K : Kwargs V) (T : Template) : Prop :=
  ∀ f, .field f ∈ T → ∀ value, K.get f.name = some value →
    ∃ new, py.format (tagOf f.var) f.name value = .ok new ∧ '\x7b' ∉ new

end Laws

/-! ## The name in a field -/

section Names

variable {V W : Type} {py : UserObjects V W} {K : Kwargs V}

theorem ne_of_mem_name {f : Field} {c d : Char} (hc : c ∈ f.name) (hd : d ∈ specials) : c ≠ d := by
  rintro rfl
  exact f.isName.2 c hc hd

/-- The name is no part of what `rootOf` drops. -/
theorem rootOf_var (f : Field) : rootOf f.var = f.name ++ rootOf f.form.text := by
  have hdot : ∀ c ∈ f.name, decide (c ≠ '.') = true := fun c hc ↦
    decide_eq_true (ne_of_mem_name hc (by decide))
  have hbracket : ∀ c ∈ f.name, decide (c ≠ '[') = true := fun c hc ↦
    decide_eq_true (ne_of_mem_name hc (by decide))
  rw [Field.var, rootOf, List.takeWhile_append_of_pos hdot, List.takeWhile_append_of_pos hbracket]
  rfl

theorem rootOf_of_noted {f : Field} (h : f.form.Noted) : rootOf f.var = f.name := by
  rw [rootOf_var]
  cases hform : f.form with
  | spec s => exact absurd h (by simp [hform, Form.Noted])
  | conv c => exact absurd h (by simp [hform, Form.Noted])
  | _ => simp [Form.text, rootOf]

/-- With a format or a conversion the code takes them for a part of the name. -/
theorem get_rootOf_of_not_noted {f : Field} (h : ¬f.form.Noted) : K.get (rootOf f.var) = none := by
  by_contra hne
  obtain ⟨value, hvalue⟩ := Option.ne_none_iff_exists'.mp hne
  have hname := (Kwargs.isName_of_get hvalue).2
  rw [rootOf_var] at hname
  cases hform : f.form with
  | spec s =>
      refine hname ':' (List.mem_append_right _ ?_) (by decide)
      simp [hform, Form.text, rootOf]
  | conv c =>
      refine hname '!' (List.mem_append_right _ ?_) (by decide)
      simp [hform, Form.text, rootOf]
  | _ => exact h (by simp [hform, Form.Noted])

theorem formatted_of_none {f : Field} (h : K.get f.name = none) : formatted py K f.var = none := by
  rw [formatted]
  by_cases hnoted : f.form.Noted
  · rw [rootOf_of_noted hnoted, h]
    rfl
  · rw [get_rootOf_of_not_noted hnoted]
    rfl

theorem formatted_of_noted {f : Field} (h : f.form.Noted) {value : V} (hvalue : K.get f.name = some value) :
    formatted py K f.var = some (py.format (tagOf f.var) f.name value) := by
  rw [formatted, rootOf_of_noted h, hvalue]
  rfl

end Names

/-! ## One call -/

section Call

variable {V W : Type} {py : UserObjects V W} {K : Kwargs V}

theorem partialFormatTags_cons (v : List Char) (vs : List (List Char)) (output : List Char) :
    py.partialFormatTags K.items (v :: vs) output =
      match formatted py K v with
      | none => py.partialFormatTags K.items vs output
      | some r => r >>= fun new ↦ py.partialFormatTags K.items vs (replaceFrom (tagOf v) new 0 output) := by
  rw [UserObjects.partialFormatTags, formatted, Kwargs.get]
  cases K.items.lookup (String.ofList (rootOf v)) <;> rfl

theorem formats_cons_iff {v : List Char} {vs : List (List Char)} : Formats py K (v :: vs) ↔
    (∀ r, formatted py K v = some r → ∃ new, r = .ok new) ∧ Formats py K vs := List.forall_mem_cons

theorem insertion_of_mem {v : List Char} {vs : List (List Char)} (hv : v ∈ vs) :
    insertion py K vs v = (formatted py K v).bind Except.toOption :=
  if_pos (List.contains_iff_mem.mpr hv)

theorem insertion_of_not_mem {v : List Char} {vs : List (List Char)} (hv : v ∉ vs) :
    insertion py K vs v = none := if_neg (mt List.contains_iff_mem.mp hv)

theorem insertion_nil (v : List Char) : insertion py K [] v = none :=
  insertion_of_not_mem List.not_mem_nil

theorem insertion_cons (v : List Char) (vs : List (List Char)) :
    insertion py K (v :: vs) = fun u ↦
      (if u = v then (formatted py K v).bind Except.toOption else none).or (insertion py K vs u) := by
  funext u
  by_cases hu : u = v
  · rw [hu, if_pos rfl, insertion_of_mem List.mem_cons_self]
    by_cases hv : v ∈ vs
    · rw [insertion_of_mem hv, Option.or_self]
    · rw [insertion_of_not_mem hv, Option.or_none]
  · simp [insertion, hu]

theorem map_fill_none {g : List Char → Option (List Char)} (hg : ∀ v, g v = none) (segs : List Seg) :
    segs.map (Seg.fill g) = segs := by
  apply List.map_id''
  intro seg
  cases seg with
  | pending f => simp [Seg.fill, hg]
  | _ => rfl

theorem map_fill_fill (g h : List Char → Option (List Char)) (segs : List Seg) :
    (segs.map (Seg.fill g)).map (Seg.fill h) = segs.map (Seg.fill fun v ↦ (g v).or (h v)) := by
  rw [List.map_map]
  exact List.map_congr_left fun seg _ ↦ Seg.fill_fill g h seg

/-- When all the tags can be replaced cleanly, a call replaces the fields with them,
by induction on the tags. -/
theorem partialFormatTags_eq_ok_iff {vs : List (List Char)} (hvs : ∀ v ∈ vs, '\x7d' ∉ v)
    {segs : List Seg} (hclean : Clean py K vs segs) (t : List Char) :
    py.partialFormatTags K.items vs (text segs) = .ok t ↔
      Formats py K vs ∧ t = text (segs.map (Seg.fill (insertion py K vs))) := by
  induction vs generalizing segs with
  | nil =>
      rw [UserObjects.partialFormatTags, map_fill_none insertion_nil]
      constructor
      · intro h
        exact ⟨fun v hv ↦ absurd hv List.not_mem_nil, (Except.ok.inj h).symm⟩
      · rintro ⟨-, rfl⟩
        rfl
  | cons v vs ih =>
      obtain ⟨hv, hvs⟩ := List.forall_mem_cons.mp hvs
      rw [partialFormatTags_cons, formats_cons_iff, insertion_cons]
      rw [Clean] at hclean
      cases hformatted : formatted py K v with
      | none =>
          rw [hformatted] at hclean
          simp [ih hvs hclean]
      | some r =>
          cases r with
          | error e =>
              constructor
              · intro h
                cases h
              · rintro ⟨⟨h, -⟩, -⟩
                obtain ⟨new, hnew⟩ := h _ rfl
                cases hnew
          | ok new =>
              rw [hformatted] at hclean
              -- The other tags are replaced in a text in which this one has been replaced.
              have hsingle : (fun u ↦ (if u = v then (some (.ok new : Except PyExc (List Char))).bind
                  Except.toOption else none).or (insertion py K vs u)) =
                  fun u ↦ (single v new u).or (insertion py K vs u) := rfl
              have hrest := ih hvs hclean.2
              rw [← replaceFrom_text hv hclean.1, map_fill_fill] at hrest
              rw [hsingle]
              refine Iff.trans hrest ?_
              simp

/-- Tags without an argument are passed over. -/
theorem partialFormatTags_known (vs : List (List Char)) (output : List Char) :
    py.partialFormatTags K.items vs output = py.partialFormatTags K.items (known K vs) output := by
  induction vs generalizing output with
  | nil => rfl
  | cons v vs ih =>
      rw [partialFormatTags_cons]
      cases hget : K.get (rootOf v) with
      | none =>
          have hformatted : formatted py K v = none := by
            rw [formatted, hget]
            rfl
          have hknown : known K (v :: vs) = known K vs := List.filter_cons_of_neg (by simp [hget])
          rw [hformatted, hknown]
          exact ih output
      | some value =>
          have hformatted : formatted py K v = some (py.format (tagOf v) (rootOf v) value) := by
            rw [formatted, hget]
            rfl
          have hknown : known K (v :: vs) = v :: known K vs := List.filter_cons_of_pos (by simp [hget])
          rw [hknown, partialFormatTags_cons, hformatted]
          dsimp only
          congr 1
          funext new
          exact ih _

theorem partialFormat_eq (htarget : K.get "target".toList = none) (s : List Char) :
    partialFormat py K s = py.partialFormatTags K.items (findTags none s) s := by
  rw [Kwargs.get, String.ofList_toList] at htarget
  rw [partialFormat, UserObjects.partialFormat, htarget, String.toList_ofList]
  cases py.partialFormatTags K.items (findTags none s) s with
  | error e => rfl
  | ok t => exact congrArg Except.ok String.toList_ofList

end Call

/-! ## The template -/

section Template

variable {V W : Type} {py : UserObjects V W} {K : Kwargs V} {T : Template}

theorem raw_not_mem (hescapes : NoEscapes T) (s : List Char) : .raw s ∉ T.map Piece.seg := by
  intro h
  obtain ⟨piece, hpiece, hseg⟩ := List.mem_map.mp h
  cases piece with
  | openBrace => exact hescapes.1 hpiece
  | closeBrace => exact hescapes.2 hpiece
  | _ => cases hseg

theorem mem_pendingVars_iff {v : List Char} :
    v ∈ pendingVars (T.map Piece.seg) ↔ ∃ f, .field f ∈ T ∧ f.var = v := by
  simp only [pendingVars, List.mem_filterMap, List.mem_map]
  constructor
  · rintro ⟨_, ⟨piece, hpiece, rfl⟩, hv⟩
    cases piece with
    | field f => exact ⟨f, hpiece, Option.some.inj hv⟩
    | _ => cases hv
  · rintro ⟨f, hf, rfl⟩
    exact ⟨_, ⟨_, hf, rfl⟩, rfl⟩

theorem tags_eq (hescapes : NoEscapes T) :
    tags T = (pendingVars (T.map Piece.seg)).filter fun v ↦ '\n' ∉ v := by
  rw [tags, ← text_segs]
  exact findTags_text fun s hs ↦ absurd hs (raw_not_mem hescapes s)

theorem mem_tags_iff (hescapes : NoEscapes T) {v : List Char} :
    v ∈ tags T ↔ (∃ f, .field f ∈ T ∧ f.var = v) ∧ '\n' ∉ v := by
  rw [tags_eq hescapes, List.mem_filter, mem_pendingVars_iff, decide_eq_true_eq]

theorem not_mem_of_mem_tags (hescapes : NoEscapes T) : ∀ v ∈ tags T, '\x7d' ∉ v := by
  intro v hv
  obtain ⟨⟨f, -, rfl⟩, -⟩ := (mem_tags_iff hescapes).mp hv
  exact f.braceless_var.2

theorem partialFormat_source_eq_ok_iff (hescapes : NoEscapes T) (htarget : K.get "target".toList = none)
    (hclean : Clean py K (tags T) (T.map Piece.seg)) (t : List Char) :
    partialFormat py K (source T) = .ok t ↔
      Formats py K (tags T) ∧ t = text ((T.map Piece.seg).map (Seg.fill (insertion py K (tags T)))) := by
  rw [partialFormat_eq htarget, ← tags, ← text_segs]
  exact partialFormatTags_eq_ok_iff (not_mem_of_mem_tags hescapes) hclean t

/-- A field for which there is an argument is replaced, if the code recognises it. -/
theorem render_field_eq_ok_iff (hescapes : NoEscapes T) (hrecognised : Recognised K T) {f : Field}
    (hf : .field f ∈ T) (b : List Char) :
    (Piece.field f).render py K (fun f ↦ .ok (tagOf f.var)) = .ok b ↔
      (∀ r, formatted py K f.var = some r → ∃ new, r = .ok new) ∧
        b = ((Seg.pending f).fill (insertion py K (tags T))).text := by
  cases hget : K.get f.name with
  | none =>
      have hformatted : formatted py K f.var = none := formatted_of_none hget
      have hinsertion : insertion py K (tags T) f.var = none := by
        rw [insertion, hformatted]
        split <;> rfl
      simp only [Piece.render, hget, hformatted, Seg.fill, hinsertion, Seg.text]
      constructor
      · intro h
        exact ⟨by simp, (Except.ok.inj h).symm⟩
      · rintro ⟨-, rfl⟩
        rfl
  | some value =>
      obtain ⟨hnoted, hline⟩ := hrecognised f hf (by rw [hget]; rfl)
      have hformatted : formatted py K f.var = some (py.format (tagOf f.var) f.name value) :=
        formatted_of_noted hnoted hget
      have hmem : f.var ∈ tags T := (mem_tags_iff hescapes).mpr ⟨⟨f, hf, rfl⟩, hline⟩
      simp only [Piece.render, hget, hformatted, Seg.fill, insertion_of_mem hmem, Option.bind_some]
      cases py.format (tagOf f.var) f.name value with
      | error e =>
          constructor
          · intro h
            cases h
          · rintro ⟨h, -⟩
            obtain ⟨new, hnew⟩ := h _ rfl
            cases hnew
      | ok new =>
          constructor
          · intro h
            exact ⟨fun r hr ↦ ⟨new, (Option.some.inj hr).symm⟩, (Except.ok.inj h).symm⟩
          · rintro ⟨-, rfl⟩
            rfl

def PieceFormats (py : UserObjects V W) (K : Kwargs V) : Piece → Prop
  | .field f => ∀ r, formatted py K f.var = some r → ∃ new, r = .ok new
  | _ => True

theorem forall_pieceFormats_iff (hescapes : NoEscapes T) (hrecognised : Recognised K T) :
    (∀ piece ∈ T, PieceFormats py K piece) ↔ Formats py K (tags T) := by
  constructor
  · intro h v hv
    obtain ⟨⟨f, hf, rfl⟩, -⟩ := (mem_tags_iff hescapes).mp hv
    exact h _ hf
  · intro h piece hpiece
    cases piece with
    | field f =>
        intro r hr
        by_cases hget : (K.get f.name).isSome
        · have hline := (hrecognised f hpiece hget).2
          exact h f.var ((mem_tags_iff hescapes).mpr ⟨⟨f, hpiece, rfl⟩, hline⟩) r hr
        · rw [formatted_of_none (Option.not_isSome_iff_eq_none.mp hget)] at hr
          contradiction
    | _ => trivial

theorem substitute_eq_ok_iff (hescapes : NoEscapes T) (hrecognised : Recognised K T) (t : List Char) :
    substitute py K T = .ok t ↔
      Formats py K (tags T) ∧ t = text ((T.map Piece.seg).map (Seg.fill (insertion py K (tags T)))) := by
  have hpiece : ∀ piece ∈ T, ∀ b, piece.render py K (fun f ↦ .ok (tagOf f.var)) = .ok b ↔
      PieceFormats py K piece ∧ b = (piece.seg.fill (insertion py K (tags T))).text := by
    intro piece hpiece b
    cases piece with
    | field f => exact render_field_eq_ok_iff hescapes hrecognised hpiece b
    | openBrace => exact absurd hpiece hescapes.1
    | closeBrace => exact absurd hpiece hescapes.2
    | text s h => simp [Piece.render, PieceFormats, Piece.source, Piece.seg, Seg.fill, Seg.text, eq_comm]
  rw [substitute, Except.map_eq_ok_iff, ← forall_pieceFormats_iff hescapes hrecognised]
  have htext : text ((T.map Piece.seg).map (Seg.fill (insertion py K (tags T)))) =
      (T.map fun piece ↦ (piece.seg.fill (insertion py K (tags T))).text).flatten := by
    rw [text, List.flatMap, List.map_map, List.map_map]
    rfl
  constructor
  · rintro ⟨texts, htexts, rfl⟩
    obtain ⟨hformats, rfl⟩ := (forall₂_returned_iff hpiece).mp (mapM_eq_ok_iff.mp htexts)
    exact ⟨hformats, htext.symm⟩
  · rintro ⟨hformats, rfl⟩
    exact ⟨_, mapM_eq_ok_iff.mpr ((forall₂_returned_iff hpiece).mpr ⟨hformats, rfl⟩), htext.symm⟩

/-- With all arguments, and no escapes, that is what `str.format` does. -/
theorem strFormat_eq_ok_iff (hescapes : NoEscapes T) (hall : ∀ f, .field f ∈ T → (K.get f.name).isSome)
    (t : List Char) : strFormat py K T = .ok t ↔ substitute py K T = .ok t := by
  rw [strFormat, substitute, Except.map_eq_ok_iff, Except.map_eq_ok_iff]
  simp only [mapM_eq_ok_iff]
  apply exists_forall₂_congr
  intro piece hpiece b
  cases piece with
  | openBrace => exact absurd hpiece hescapes.1
  | closeBrace => exact absurd hpiece hescapes.2
  | text s h => rfl
  | field f =>
      obtain ⟨value, hvalue⟩ := Option.isSome_iff_exists.mp (hall f hpiece)
      simp [Returned, Piece.render, hvalue]

end Template

/-! ## Two calls -/

section Twice

variable {V W : Type} {py : UserObjects V W} {K L : Kwargs V} {vs : List (List Char)}

theorem formatted_union (v : List Char) :
    formatted py (K.union L) v = (formatted py K v).or (formatted py L v) := by
  rw [formatted, Kwargs.get_union, formatted, formatted]
  cases K.get (rootOf v) <;> rfl

theorem formatted_of_disjoint (hdisjoint : K.Disjoint L) (v : List Char) :
    formatted py K v = none ∨ formatted py L v = none := by
  obtain h | h := hdisjoint (rootOf v)
  · exact .inl (by rw [formatted, h]; rfl)
  · exact .inr (by rw [formatted, h]; rfl)

theorem formats_union_iff (hdisjoint : K.Disjoint L) :
    Formats py (K.union L) vs ↔ Formats py K vs ∧ Formats py L vs := by
  simp only [Formats, formatted_union, ← forall_and]
  refine forall_congr' fun v ↦ forall_congr' fun _ ↦ ?_
  obtain h | h : formatted py K v = none ∨ formatted py L v = none := formatted_of_disjoint hdisjoint v
  · simp [h]
  · simp [h]

theorem insertion_union (hdisjoint : K.Disjoint L) :
    insertion py (K.union L) vs = fun v ↦ (insertion py K vs v).or (insertion py L vs v) := by
  funext v
  by_cases hv : v ∈ vs
  · rw [insertion_of_mem hv, insertion_of_mem hv, insertion_of_mem hv, formatted_union]
    obtain h | h : formatted py K v = none ∨ formatted py L v = none := formatted_of_disjoint hdisjoint v
    · simp [h]
    · simp [h]
  · simp [insertion, hv]

variable {T : Template}

/-- The second call, after a first one that has returned. -/
theorem partialFormat_firstSegs_eq_ok_iff (hescapes : NoEscapes T)
    (htarget : L.get "target".toList = none)
    (hfound : known L (findTags none (text (firstSegs py K T))) = known L (tags T))
    (hclean : Clean py L (tags T) (firstSegs py K T)) (t : List Char) :
    partialFormat py L (text (firstSegs py K T)) = .ok t ↔ Formats py L (tags T) ∧
      t = text ((firstSegs py K T).map (Seg.fill (insertion py L (tags T)))) := by
  rw [partialFormat_eq htarget, partialFormatTags_known, hfound, ← partialFormatTags_known]
  exact partialFormatTags_eq_ok_iff (not_mem_of_mem_tags hescapes) hclean t

theorem get_union_eq_none_iff {name : List Char} :
    (K.union L).get name = none ↔ K.get name = none ∧ L.get name = none := by
  rw [Kwargs.get_union, Option.or_eq_none_iff]

/-- All three laws hold where no value disturbs a field. -/
theorem formatLaws_of_undisturbed (hdisjoint : K.Disjoint L) (hescapes : NoEscapes T)
    (htarget : (K.union L).get "target".toList = none) (hrecognised : Recognised (K.union L) T)
    (hundisturbed : Undisturbed py T K L) : FormatLaws py T K L := by
  obtain ⟨hK, hL⟩ := get_union_eq_none_iff.mp htarget
  have hcall := partialFormat_source_eq_ok_iff hescapes htarget hundisturbed.together
  have hfirst := partialFormat_source_eq_ok_iff hescapes hK hundisturbed.firstCall
  have hverbatim : ∀ t, partialFormat py (K.union L) (source T) = .ok t ↔
      substitute py (K.union L) T = .ok t := fun t ↦
    (hcall t).trans (substitute_eq_ok_iff hescapes hrecognised t).symm
  constructor
  · intro hall t
    exact (hverbatim t).trans (strFormat_eq_ok_iff hescapes hall t).symm
  · intro t
    rw [Except.bind_eq_ok_iff, hcall, formats_union_iff hdisjoint, insertion_union hdisjoint,
      ← map_fill_fill]
    constructor
    · rintro ⟨t₁, ht₁, ht⟩
      obtain ⟨hformats, rfl⟩ := (hfirst t₁).mp ht₁
      obtain ⟨hformats', rfl⟩ := (partialFormat_firstSegs_eq_ok_iff hescapes hL
        (hundisturbed.found hformats) (hundisturbed.secondCall hformats) t).mp ht
      exact ⟨⟨hformats, hformats'⟩, rfl⟩
    · rintro ⟨⟨hformats, hformats'⟩, ht⟩
      exact ⟨_, (hfirst _).mpr ⟨hformats, rfl⟩, (partialFormat_firstSegs_eq_ok_iff hescapes hL
        (hundisturbed.found hformats) (hundisturbed.secondCall hformats) t).mpr ⟨hformats', ht⟩⟩
  · exact hverbatim

end Twice

end OpenHtf.FormatTemplate
