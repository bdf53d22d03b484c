import OpenHtf.BaseTypes
import OpenHtf.Lib.ExceptMap

/-!
# The options of a conversion

`convert_to_base_types` passes its options on by hand.  For the items of lists and
tuples it passes all of them; for the keys and values of dicts it leaves `json_safe`
out, which then has its default again.
-/

set_option autoImplicit false

namespace OpenHtf.BaseTypes

open PyObj

/-! ## Plain objects -/

inductive Scalar : PyObj → Prop
  | none : Scalar .none
  | bool (b : Bool) : Scalar (.bool b)
  | int (n : ℤ) : Scalar (.int n)
  | float (x : PyFloat) : Scalar (.float x)
  | str (s : String) : Scalar (.str s)
  | bytes (b : List UInt8) : Scalar (.bytes b)

/-- A scalar or a tuple that can be a key. -/
inductive PlainKey : PyObj → Prop
  | scalar {x : PyObj} (h : Scalar x) : PlainKey x
  | tuple (xs : List PyObj) (h : ∀ x ∈ xs, PlainKey x) : PlainKey (.tuple xs)

/-- A finite nesting of dicts, lists, tuples and scalars.  The keys of a dict differ. -/
inductive Plain : PyObj → Prop
  | key {x : PyObj} (h : PlainKey x) : Plain x
  | list (xs : List PyObj) (h : ∀ x ∈ xs, Plain x) : Plain (.list xs)
  | tuple (xs : List PyObj) (h : ∀ x ∈ xs, Plain x) : Plain (.tuple xs)
  | dict (items : List (PyObj × PyObj)) (keys : ∀ item ∈ items, PlainKey item.1)
      (values : ∀ item ∈ items, Plain item.2)
      (distinct : items.Pairwise fun a b ↦ keyEq a.1 b.1 = false) : Plain (.dict items)

/-- The items whose keys are not ignored. -/
def kept (ignoreKeys : List String) (items : List (PyObj × PyObj)) : List (PyObj × PyObj) :=
  items.filter fun item ↦ !ignoreKeys.any (item.1.eqStr ·)

/-- The dict of the items, set one after the other. -/
def dictOf (items acc : List (PyObj × PyObj)) : List (PyObj × PyObj) :=
  items.foldl (fun acc item ↦ dictInsert item.1 item.2 acc) acc

/-- The second value is the first with all options applied at every level. -/
inductive Converted (o : Options) : PyObj → PyObj → Prop
  | none : Converted o .none .none
  | bool (b : Bool) : Converted o (.bool b) (.bool b)
  | int (n : ℤ) : Converted o (.int n) (.int n)
  | str (s : String) : Converted o (.str s) (.str s)
  | bytes (b : List UInt8) : Converted o (.bytes b) (.bytes b)
  | finite (x : ℚ) : Converted o (.float (.finite x)) (.float (.finite x))
  | stays (x : PyFloat) (h : o.jsonSafe = false) : Converted o (.float x) (.float x)
  | named (x : PyFloat) (s : String) (hx : x.nonFinite = some s) (h : o.jsonSafe = true) :
      Converted o (.float x) (.str s)
  | list (xs ys : List PyObj) (h : List.Forall₂ (Converted o) xs ys) : Converted o (.list xs) (.list ys)
  | tuple (xs ys : List PyObj) (y : PyObj) (h : List.Forall₂ (Converted o) xs ys)
      (hy : y = o.tupleType ys) : Converted o (.tuple xs) y
  | dict (items : List (PyObj × PyObj)) (keys values : List PyObj)
      (hkeys : List.Forall₂ (Converted o) ((kept o.ignoreKeys items).map Prod.fst) keys)
      (hvalues : List.Forall₂ (Converted o) ((kept o.ignoreKeys items).map Prod.snd) values)
      (hhashable : ∀ k ∈ keys, k.hashable = true) :
      Converted o (.dict items) (.dict (dictOf (keys.zip values) []))

/-- A float that is infinite or not a number is kept somewhere in the value. -/
inductive HasNonFinite (ignoreKeys : List String) : PyObj → Prop
  | float (x : PyFloat) (h : x.nonFinite.isSome = true) : HasNonFinite ignoreKeys (.float x)
  | list (xs : List PyObj) (x : PyObj) (hx : x ∈ xs) (h : HasNonFinite ignoreKeys x) : HasNonFinite ignoreKeys (.list xs)
  | tuple (xs : List PyObj) (x : PyObj) (hx : x ∈ xs) (h : HasNonFinite ignoreKeys x) : HasNonFinite ignoreKeys (.tuple xs)
  | key (items : List (PyObj × PyObj)) (item : PyObj × PyObj) (hitem : item ∈ kept ignoreKeys items)
      (h : HasNonFinite ignoreKeys item.1) : HasNonFinite ignoreKeys (.dict items)
  | value (items : List (PyObj × PyObj)) (item : PyObj × PyObj) (hitem : item ∈ kept ignoreKeys items)
      (h : HasNonFinite ignoreKeys item.2) : HasNonFinite ignoreKeys (.dict items)

/-- Such a float is kept in a dict. -/
inductive InDict (ignoreKeys : List String) : PyObj → Prop
  | list (xs : List PyObj) (x : PyObj) (hx : x ∈ xs) (h : InDict ignoreKeys x) : InDict ignoreKeys (.list xs)
  | tuple (xs : List PyObj) (x : PyObj) (hx : x ∈ xs) (h : InDict ignoreKeys x) : InDict ignoreKeys (.tuple xs)
  | dict (items : List (PyObj × PyObj)) (h : HasNonFinite ignoreKeys (.dict items)) : InDict ignoreKeys (.dict items)

/-! ## Results of the conversion -/

section Results

variable {o : Options}

theorem convertList_eq_ok_iff {xs ys : List PyObj} :
    convertList o xs = .ok ys ↔ List.Forall₂ (Returned (convertToBaseTypes o)) xs ys := by
  induction xs generalizing ys with
  | nil =>
      rw [convertList, List.forall₂_nil_left_iff, Except.ok.injEq]
      exact eq_comm
  | cons x xs ih =>
      rw [convertList, Except.bind_eq_ok_iff]
      constructor
      · rintro ⟨y, hy, hrest⟩
        obtain ⟨ys', hys, hpure⟩ := Except.bind_eq_ok_iff.mp hrest
        obtain rfl := Except.ok.inj hpure
        exact .cons hy (ih.mp hys)
      · intro h
        cases h with
        | cons hy hys => exact ⟨_, hy, Except.bind_eq_ok_iff.mpr ⟨_, ih.mpr hys, rfl⟩⟩

theorem setItem_eq_ok_iff {k v : PyObj} {acc acc' : List (PyObj × PyObj)} :
    setItem k v acc = .ok acc' ↔ k.hashable = true ∧ dictInsert k v acc = acc' := by
  unfold setItem
  split
  · rename_i hk
    simp [hk]
  · rename_i hk
    simp [hk]

/-- An item that is kept is converted with the default of `json_safe`. -/
theorem convertItem_eq_ok_iff {item : PyObj × PyObj} {acc acc' : List (PyObj × PyObj)}
    (hkept : o.ignores item.1 = false) :
    convertItem o (fun _ _ ↦ true) acc item = .ok acc' ↔
      ∃ k v, convertToBaseTypes o.forItems item.1 = .ok k ∧ convertToBaseTypes o.forItems item.2 = .ok v ∧
        k.hashable = true ∧ dictInsert k v acc = acc' := by
  have hcond : ((fun _ _ ↦ true : PyObj → PyObj → Bool) item.1 item.2 && !o.ignores item.1) = true := by
    simp [hkept]
  rw [convertItem, if_pos hcond, Except.bind_eq_ok_iff]
  refine exists_congr fun k ↦ ?_
  rw [Except.bind_eq_ok_iff, exists_and_left]
  refine and_congr_right fun _ ↦ ?_
  simp only [setItem_eq_ok_iff]

theorem convertItem_of_ignored {item : PyObj × PyObj} {acc : List (PyObj × PyObj)}
    (hignored : o.ignores item.1 = true) :
    convertItem o (fun _ _ ↦ true) acc item = .ok acc := by
  rw [convertItem, if_neg (by simp [hignored])]

theorem kept_cons (item : PyObj × PyObj) (items : List (PyObj × PyObj)) :
    kept o.ignoreKeys (item :: items) = if o.ignores item.1 then kept o.ignoreKeys items else item :: kept o.ignoreKeys items := by
  rw [kept, List.filter_cons, Options.ignores, ← kept]
  cases o.ignoreKeys.any (item.1.eqStr ·) <;> rfl

theorem convertItems_eq_ok_iff {items acc result : List (PyObj × PyObj)} :
    convertItems o (fun _ _ ↦ true) items acc = .ok result ↔
      ∃ keys values, List.Forall₂ (Returned (convertToBaseTypes o.forItems)) ((kept o.ignoreKeys items).map Prod.fst) keys ∧
        List.Forall₂ (Returned (convertToBaseTypes o.forItems)) ((kept o.ignoreKeys items).map Prod.snd) values ∧
        (∀ k ∈ keys, k.hashable = true) ∧ result = dictOf (keys.zip values) acc := by
  induction items generalizing acc with
  | nil =>
      rw [convertItems, Except.ok.injEq]
      constructor
      · rintro rfl
        exact ⟨[], [], .nil, .nil, by simp, rfl⟩
      · rintro ⟨keys, values, hkeys, -, -, rfl⟩
        obtain rfl := List.forall₂_nil_left_iff.mp hkeys
        rfl
  | cons item items ih =>
      rw [convertItems, Except.bind_eq_ok_iff, kept_cons]
      cases hignored : o.ignores item.1 with
      | true =>
          simp only [convertItem_of_ignored hignored, Except.ok.injEq, exists_eq_left', if_true]
          exact ih
      | false =>
          simp only [convertItem_eq_ok_iff hignored, Bool.false_eq_true, if_false, List.map_cons,
            List.forall₂_cons_left_iff]
          constructor
          · rintro ⟨acc', ⟨k, v, hk, hv, hhash, rfl⟩, hrest⟩
            obtain ⟨keys, values, hkeys, hvalues, hhashes, rfl⟩ := ih.mp hrest
            refine ⟨k :: keys, v :: values, ⟨k, keys, hk, hkeys, rfl⟩, ⟨v, values, hv, hvalues, rfl⟩, ?_, rfl⟩
            exact List.forall_mem_cons.mpr ⟨hhash, hhashes⟩
          · rintro ⟨_, _, ⟨k, keys, hk, hkeys, rfl⟩, ⟨v, values, hv, hvalues, rfl⟩, hhashes, rfl⟩
            obtain ⟨hhash, hhashes⟩ := List.forall_mem_cons.mp hhashes
            exact ⟨_, ⟨k, v, hk, hv, hhash, rfl⟩, ih.mpr ⟨keys, values, hkeys, hvalues, hhashes, rfl⟩⟩

theorem convert_list_eq_ok_iff {xs : List PyObj} {y : PyObj} :
    convertToBaseTypes o (.list xs) = .ok y ↔
      ∃ ys, List.Forall₂ (Returned (convertToBaseTypes o)) xs ys ∧ .list ys = y := by
  rw [convertToBaseTypes, Except.map_eq_ok_iff]
  simp only [convertList_eq_ok_iff]

theorem convert_tuple_eq_ok_iff {xs : List PyObj} {y : PyObj} :
    convertToBaseTypes o (.tuple xs) = .ok y ↔
      ∃ ys, List.Forall₂ (Returned (convertToBaseTypes o)) xs ys ∧ o.tupleType ys = y := by
  rw [convertToBaseTypes, Except.map_eq_ok_iff]
  simp only [convertList_eq_ok_iff]

theorem convert_dict_eq_ok_iff {items : List (PyObj × PyObj)} {y : PyObj} :
    convertToBaseTypes o (.dict items) = .ok y ↔
      ∃ keys values, List.Forall₂ (Returned (convertToBaseTypes o.forItems)) ((kept o.ignoreKeys items).map Prod.fst) keys ∧
        List.Forall₂ (Returned (convertToBaseTypes o.forItems)) ((kept o.ignoreKeys items).map Prod.snd) values ∧
        (∀ k ∈ keys, k.hashable = true) ∧ .dict (dictOf (keys.zip values) []) = y := by
  rw [convertToBaseTypes, Except.map_eq_ok_iff]
  simp only [convertItems_eq_ok_iff]
  constructor
  · rintro ⟨_, ⟨keys, values, hkeys, hvalues, hhashes, rfl⟩, rfl⟩
    exact ⟨keys, values, hkeys, hvalues, hhashes, rfl⟩
  · rintro ⟨keys, values, hkeys, hvalues, hhashes, rfl⟩
    exact ⟨_, ⟨keys, values, hkeys, hvalues, hhashes, rfl⟩, rfl⟩

end Results

/-! ## What applies all options -/

section Converted

variable {o : Options}

theorem converted_list_iff {xs : List PyObj} {y : PyObj} :
    Converted o (.list xs) y ↔ ∃ ys, List.Forall₂ (Converted o) xs ys ∧ .list ys = y := by
  constructor
  · intro h
    cases h with
    | list _ ys h => exact ⟨ys, h, rfl⟩
  · rintro ⟨ys, h, rfl⟩
    exact .list xs ys h

theorem converted_tuple_iff {xs : List PyObj} {y : PyObj} :
    Converted o (.tuple xs) y ↔ ∃ ys, List.Forall₂ (Converted o) xs ys ∧ o.tupleType ys = y := by
  constructor
  · intro h
    cases h with
    | tuple _ ys _ h hy => exact ⟨ys, h, hy.symm⟩
  · rintro ⟨ys, h, rfl⟩
    exact .tuple xs ys _ h rfl

theorem converted_dict_iff {items : List (PyObj × PyObj)} {y : PyObj} :
    Converted o (.dict items) y ↔
      ∃ keys values, List.Forall₂ (Converted o) ((kept o.ignoreKeys items).map Prod.fst) keys ∧
        List.Forall₂ (Converted o) ((kept o.ignoreKeys items).map Prod.snd) values ∧
        (∀ k ∈ keys, k.hashable = true) ∧ .dict (dictOf (keys.zip values) []) = y := by
  constructor
  · intro h
    cases h with
    | dict _ keys values hkeys hvalues hhashable => exact ⟨keys, values, hkeys, hvalues, hhashable, rfl⟩
  · rintro ⟨keys, values, hkeys, hvalues, hhashable, rfl⟩
    exact .dict items keys values hkeys hvalues hhashable

/-- For a float the option decides. -/
theorem converted_float_iff {x : PyFloat} {y : PyObj} :
    Converted o (.float x) y ↔ convertFloat o x = y := by
  unfold convertFloat
  constructor
  · intro h
    cases h with
    | finite x => rfl
    | stays x h => cases x.nonFinite <;> simp [h]
    | named x s hx h => simp [hx, h]
  · rintro rfl
    cases hx : x.nonFinite with
    | none =>
        cases x with
        | finite x => exact .finite x
        | inf negative => cases negative <;> cases hx
        | nan => cases hx
    | some s =>
        cases hsafe : o.jsonSafe with
        | true => exact .named x s hx hsafe
        | false => exact .stays x hsafe

end Converted

/-! ## Nestings -/

/-- Induction over a nesting, without a case of its own for keys. -/
theorem Plain.induction {motive : PyObj → Prop} (scalar : ∀ x, Scalar x → motive x)
    (list : ∀ xs, (∀ x ∈ xs, motive x) → motive (.list xs))
    (tuple : ∀ xs, (∀ x ∈ xs, motive x) → motive (.tuple xs))
    (dict : ∀ items : List (PyObj × PyObj), Plain (.dict items) → (∀ item ∈ items, PlainKey item.1) →
      (items.Pairwise fun a b ↦ keyEq a.1 b.1 = false) → (∀ item ∈ items, motive item.1) →
      (∀ item ∈ items, motive item.2) → motive (.dict items)) {x : PyObj} (hx : Plain x) : motive x := by
  have hkey {x : PyObj} (h : PlainKey x) : motive x := by
    induction h with
    | scalar h => exact scalar _ h
    | tuple xs _ ih => exact tuple xs ih
  induction hx with
  | key h => exact hkey h
  | list xs _ ih => exact list xs ih
  | tuple xs _ ih => exact tuple xs ih
  | dict items keys values distinct ih =>
      have hkeys item (hitem : item ∈ items) := hkey (keys item hitem)
      exact dict items (.dict items keys values distinct) keys distinct hkeys ih

theorem PlainKey.hashable {x : PyObj} (h : PlainKey x) : x.hashable = true := by
  induction h with
  | scalar h => cases h <;> rfl
  | tuple xs _ ih => exact hashableList_of_forall ih

section Agree

variable {o : Options} {items : List (PyObj × PyObj)}

theorem mem_items_of_kept {ignoreKeys : List String} {item : PyObj × PyObj}
    (h : item ∈ kept ignoreKeys items) : item ∈ items := List.mem_of_mem_filter h

theorem forall_kept_fst {P : PyObj → Prop} (h : ∀ item ∈ kept o.ignoreKeys items, P item.1) :
    ∀ x ∈ (kept o.ignoreKeys items).map Prod.fst, P x := by
  simpa using fun k v hmem ↦ h (k, v) hmem

theorem forall_kept_snd {P : PyObj → Prop} (h : ∀ item ∈ kept o.ignoreKeys items, P item.2) :
    ∀ x ∈ (kept o.ignoreKeys items).map Prod.snd, P x := by
  simpa using fun v k hmem ↦ h (k, v) hmem

theorem convert_scalar_iff {x : PyObj} (hx : Scalar x) (y : PyObj) :
    convertToBaseTypes o x = .ok y ↔ Converted o x y := by
  have hsame (hconvert : convertToBaseTypes o x = .ok x) (hself : Converted o x x)
      (hinv : ∀ y, Converted o x y → x = y) : convertToBaseTypes o x = .ok y ↔ Converted o x y := by
    rw [hconvert, Except.ok.injEq]
    exact ⟨fun h ↦ h ▸ hself, hinv y⟩
  cases hx with
  | none => exact hsame rfl .none fun y h ↦ by cases h; rfl
  | bool b => exact hsame rfl (.bool b) fun y h ↦ by cases h; rfl
  | int n => exact hsame rfl (.int n) fun y h ↦ by cases h; rfl
  | str s => exact hsame rfl (.str s) fun y h ↦ by cases h; rfl
  | bytes b => exact hsame rfl (.bytes b) fun y h ↦ by cases h; rfl
  | float x => rw [convertToBaseTypes, converted_float_iff, Except.ok.injEq]

/-- Without a float that is infinite or not a number, `json_safe` makes no difference. -/
theorem converted_congr (jsonSafe : Bool) {x : PyObj} (hx : Plain x) (h : ¬HasNonFinite o.ignoreKeys x) (y : PyObj) :
    Converted { o with jsonSafe := jsonSafe } x y ↔ Converted o x y := by
  refine hx.induction (motive := fun x ↦ ¬HasNonFinite o.ignoreKeys x → ∀ y,
    Converted { o with jsonSafe := jsonSafe } x y ↔ Converted o x y) ?_ ?_ ?_ ?_ h y
  · intro x hx h y
    rw [← convert_scalar_iff hx, ← convert_scalar_iff hx]
    cases hx with
    | float x =>
        have hfinite : x.nonFinite = Option.none := by
          simpa using fun hx ↦ h (.float x hx)
        simp only [convertToBaseTypes, convertFloat, hfinite]
    | none | bool | int | str | bytes => rfl
  · intro xs ih h y
    rw [converted_list_iff, converted_list_iff]
    exact exists_forall₂_congr fun x hx ↦ ih x hx fun hx' ↦ h (.list xs x hx hx')
  · intro xs ih h y
    rw [converted_tuple_iff, converted_tuple_iff]
    exact exists_forall₂_congr fun x hx ↦ ih x hx fun hx' ↦ h (.tuple xs x hx hx')
  · intro items _ _ _ ihkeys ihvalues h y
    rw [converted_dict_iff, converted_dict_iff]
    refine exists_congr fun keys ↦ exists_congr fun values ↦ and_congr ?_ (and_congr_left fun _ ↦ ?_)
    · refine forall₂_congr_of_mem (forall_kept_fst fun item hitem ↦ ?_)
      exact ihkeys item (mem_items_of_kept hitem) fun hk ↦ h (.key items item hitem hk)
    · refine forall₂_congr_of_mem (forall_kept_snd fun item hitem ↦ ?_)
      exact ihvalues item (mem_items_of_kept hitem) fun hv ↦ h (.value items item hitem hv)

theorem convert_iff_of_jsonSafe (hsafe : o.jsonSafe = true) {x : PyObj} (hx : Plain x) (y : PyObj) :
    convertToBaseTypes o x = .ok y ↔ Converted o x y := by
  have hitems : o.forItems = o := by
    rw [Options.forItems, ← hsafe]
  refine hx.induction (motive := fun x ↦ ∀ y, convertToBaseTypes o x = .ok y ↔ Converted o x y)
    ?_ ?_ ?_ ?_ y
  · exact fun x hx y ↦ convert_scalar_iff hx y
  · intro xs ih y
    rw [convert_list_eq_ok_iff, converted_list_iff]
    exact exists_forall₂_congr ih
  · intro xs ih y
    rw [convert_tuple_eq_ok_iff, converted_tuple_iff]
    exact exists_forall₂_congr ih
  · intro items _ _ _ ihkeys ihvalues y
    rw [convert_dict_eq_ok_iff, converted_dict_iff, hitems]
    refine exists_congr fun keys ↦ exists_congr fun values ↦ and_congr ?_ (and_congr_left fun _ ↦ ?_)
    · exact forall₂_congr_of_mem (forall_kept_fst fun item hitem ↦ ihkeys item (mem_items_of_kept hitem))
    · exact forall₂_congr_of_mem (forall_kept_snd fun item hitem ↦ ihvalues item (mem_items_of_kept hitem))

/-- For the items of a dict the option has its default, whatever it is for the dict. -/
theorem convert_dict_forItems (items : List (PyObj × PyObj)) (y : PyObj) :
    convertToBaseTypes o (.dict items) = .ok y ↔ convertToBaseTypes o.forItems (.dict items) = .ok y := by
  rw [convert_dict_eq_ok_iff, convert_dict_eq_ok_iff]
  rfl

theorem convert_iff_of_not_inDict {x : PyObj} (hx : Plain x) (h : ¬InDict o.ignoreKeys x) (y : PyObj) :
    convertToBaseTypes o x = .ok y ↔ Converted o x y := by
  refine hx.induction (motive := fun x ↦ ¬InDict o.ignoreKeys x → ∀ y,
    convertToBaseTypes o x = .ok y ↔ Converted o x y) ?_ ?_ ?_ ?_ h y
  · exact fun x hx _ y ↦ convert_scalar_iff hx y
  · intro xs ih h y
    rw [convert_list_eq_ok_iff, converted_list_iff]
    exact exists_forall₂_congr fun x hx ↦ ih x hx fun hx' ↦ h (.list xs x hx hx')
  · intro xs ih h y
    rw [convert_tuple_eq_ok_iff, converted_tuple_iff]
    exact exists_forall₂_congr fun x hx ↦ ih x hx fun hx' ↦ h (.tuple xs x hx hx')
  · intro items hplain _ _ _ _ h y
    rw [convert_dict_forItems, convert_iff_of_jsonSafe rfl hplain]
    exact converted_congr true hplain (fun hitems ↦ h (.dict items hitems)) y

end Agree

/-! ## What the conversion loses -/

section Loses

variable {o : Options}

theorem mem_dictOf {items acc : List (PyObj × PyObj)} {item : PyObj × PyObj} (h : item ∈ dictOf items acc) :
    (item.1 ∈ items.map Prod.fst ∨ item.1 ∈ acc.map Prod.fst) ∧
      (item.2 ∈ items.map Prod.snd ∨ item.2 ∈ acc.map Prod.snd) := by
  induction items generalizing acc with
  | nil => exact ⟨.inr (List.mem_map_of_mem h), .inr (List.mem_map_of_mem h)⟩
  | cons new items ih =>
      obtain ⟨hkey, hvalue⟩ := ih h
      rw [List.map_cons, List.map_cons, List.mem_cons, List.mem_cons]
      constructor
      · rcases hkey with hkey | hkey
        · exact .inl (.inr hkey)
        · obtain ⟨item', hitem', heq⟩ := List.mem_map.mp hkey
          rcases (mem_keys_dictInsert hitem').1 with hnew | ⟨old, hold, hnew⟩
          · exact .inl (.inl (heq.symm.trans hnew))
          · exact .inr (heq ▸ hnew ▸ List.mem_map_of_mem hold)
      · rcases hvalue with hvalue | hvalue
        · exact .inl (.inr hvalue)
        · obtain ⟨item', hitem', heq⟩ := List.mem_map.mp hvalue
          rcases (mem_keys_dictInsert hitem').2 with hnew | ⟨old, hold, hnew⟩
          · exact .inl (.inl (heq.symm.trans hnew))
          · exact .inr (heq ▸ hnew ▸ List.mem_map_of_mem hold)

theorem mem_dictOf_zip {keys values : List PyObj} {item : PyObj × PyObj}
    (h : item ∈ dictOf (keys.zip values) []) : item.1 ∈ keys ∧ item.2 ∈ values := by
  obtain ⟨hkey, hvalue⟩ := mem_dictOf h
  rw [List.map_nil, or_iff_left List.not_mem_nil] at hkey hvalue
  obtain ⟨⟨k, v⟩, hmem, heq⟩ := List.mem_map.mp hkey
  obtain ⟨⟨k', v'⟩, hmem', heq'⟩ := List.mem_map.mp hvalue
  exact ⟨heq ▸ (List.of_mem_zip hmem).1, heq' ▸ (List.of_mem_zip hmem').2⟩

/-- What is safe for JSON has no float that is infinite or not a number. -/
theorem not_hasNonFinite_converted (htuple : o.tupleType = .tuple) (hsafe : o.jsonSafe = true) {x : PyObj}
    (hx : Plain x) {y : PyObj} (hy : convertToBaseTypes o x = .ok y) : ¬HasNonFinite [] y := by
  have hitems : o.forItems = o := by
    rw [Options.forItems, ← hsafe]
  refine hx.induction (motive := fun x ↦ ∀ y, convertToBaseTypes o x = .ok y → ¬HasNonFinite [] y)
    ?_ ?_ ?_ ?_ y hy
  · rintro x hx y hy hnot
    rw [convert_scalar_iff hx] at hy
    cases hx with
    | float x =>
        obtain rfl := converted_float_iff.mp hy
        unfold convertFloat at hnot
        cases hnonFinite : x.nonFinite with
        | none =>
            simp only [hnonFinite] at hnot
            cases hnot with
            | float _ h => simp [hnonFinite] at h
        | some s =>
            simp only [hnonFinite, hsafe, if_true] at hnot
            cases hnot
    | none | bool | int | str | bytes =>
        cases hy
        cases hnot
  · intro xs ih y hy hnot
    obtain ⟨ys, hys, rfl⟩ := convert_list_eq_ok_iff.mp hy
    obtain _ | ⟨_, y, hmem, hnot⟩ := hnot
    exact forall_right_of_forall₂ hys ih y hmem hnot
  · intro xs ih y hy hnot
    obtain ⟨ys, hys, rfl⟩ := convert_tuple_eq_ok_iff.mp hy
    rw [htuple] at hnot
    obtain _ | _ | ⟨_, y, hmem, hnot⟩ := hnot
    exact forall_right_of_forall₂ hys ih y hmem hnot
  · intro items _ _ _ ihkeys ihvalues y hy hnot
    obtain ⟨keys, values, hkeys, hvalues, -, rfl⟩ := convert_dict_eq_ok_iff.mp hy
    rw [hitems] at hkeys hvalues
    cases hnot with
    | key _ item hitem hnot =>
        obtain ⟨k, hk, hconvert⟩ := exists_left_of_forall₂ hkeys (mem_dictOf_zip (mem_items_of_kept hitem)).1
        obtain ⟨old, hold, rfl⟩ := List.mem_map.mp hk
        exact ihkeys old (mem_items_of_kept hold) _ hconvert hnot
    | value _ item hitem hnot =>
        obtain ⟨v, hv, hconvert⟩ := exists_left_of_forall₂ hvalues (mem_dictOf_zip (mem_items_of_kept hitem)).2
        obtain ⟨old, hold, rfl⟩ := List.mem_map.mp hv
        exact ihvalues old (mem_items_of_kept hold) _ hconvert hnot

/-- Whatever `json_safe` is, no dict has such a float. -/
theorem not_inDict_converted (htuple : o.tupleType = .tuple) {x : PyObj}
    (hx : Plain x) {y : PyObj} (hy : convertToBaseTypes o x = .ok y) : ¬InDict [] y := by
  refine hx.induction (motive := fun x ↦ ∀ y, convertToBaseTypes o x = .ok y → ¬InDict [] y)
    ?_ ?_ ?_ ?_ y hy
  · rintro x hx y hy hnot
    rw [convert_scalar_iff hx] at hy
    cases hx <;> cases hy <;> cases hnot
  · intro xs ih y hy hnot
    obtain ⟨ys, hys, rfl⟩ := convert_list_eq_ok_iff.mp hy
    obtain ⟨_, y, hmem, hnot⟩ := hnot
    exact forall_right_of_forall₂ hys ih y hmem hnot
  · intro xs ih y hy hnot
    obtain ⟨ys, hys, rfl⟩ := convert_tuple_eq_ok_iff.mp hy
    rw [htuple] at hnot
    obtain _ | ⟨_, y, hmem, hnot⟩ := hnot
    exact forall_right_of_forall₂ hys ih y hmem hnot
  · intro items hplain _ _ _ _ y hy hnot
    rw [convert_dict_forItems] at hy
    have hfinite := not_hasNonFinite_converted (o := o.forItems) htuple rfl hplain hy
    obtain ⟨keys, values, -, -, -, rfl⟩ := convert_dict_eq_ok_iff.mp hy
    cases hnot with
    | dict _ h => exact hfinite h

theorem converted_scalar_self (hsafe : o.jsonSafe = false) {x : PyObj} (hx : Scalar x) : Converted o x x := by
  cases hx with
  | none => exact .none
  | bool b => exact .bool b
  | int n => exact .int n
  | float x => exact .stays x hsafe
  | str s => exact .str s
  | bytes b => exact .bytes b

theorem converted_key_self (htuple : o.tupleType = .tuple) (hsafe : o.jsonSafe = false) {x : PyObj}
    (hx : PlainKey x) : Converted o x x := by
  induction hx with
  | scalar h => exact converted_scalar_self hsafe h
  | tuple xs _ ih =>
      exact converted_tuple_iff.mpr ⟨xs, List.forall₂_same.mpr ih, by rw [htuple]⟩

theorem hasNonFinite_key {ignoreKeys : List String} {x : PyObj} (hx : PlainKey x)
    (h : HasNonFinite ignoreKeys x) : HasNonFinite [] x := by
  induction hx with
  | scalar hx =>
      cases hx with
      | float x =>
          cases h with
          | float _ h => exact .float x h
      | none | bool | int | str | bytes => cases h
  | tuple xs _ ih =>
      obtain _ | _ | ⟨_, x, hx, h⟩ := h
      exact .tuple xs x hx (ih x hx h)

theorem kept_nil (items : List (PyObj × PyObj)) : kept [] items = items := by
  simp [kept]

theorem dictOf_of_distinct {items acc : List (PyObj × PyObj)}
    (h : (acc ++ items).Pairwise fun a b ↦ keyEq a.1 b.1 = false) : dictOf items acc = acc ++ items := by
  induction items generalizing acc with
  | nil => exact (List.append_nil acc).symm
  | cons item items ih =>
      have hnew : ∀ old ∈ acc, keyEq old.1 item.1 = false := fun old hold ↦
        (List.pairwise_append.mp h).2.2 old hold item List.mem_cons_self
      rw [List.append_cons] at h ⊢
      have hinsert : dictInsert item.1 item.2 acc = acc ++ [item] := dictInsert_of_distinct hnew
      show dictOf items (dictInsert item.1 item.2 acc) = _
      rw [hinsert]
      exact ih h

/-- The second value has of the first what is not ignored. -/
structure Keeps (o : Options) (x y : PyObj) : Prop where
  converted : Converted o x y
  nonFinite : HasNonFinite o.ignoreKeys x → HasNonFinite [] y
  inDict : InDict o.ignoreKeys x → InDict [] y

theorem exists_keeps_dict (htuple : o.tupleType = .tuple) (hsafe : o.jsonSafe = false)
    {items : List (PyObj × PyObj)} (hkeys : ∀ item ∈ items, PlainKey item.1)
    (hdistinct : items.Pairwise fun a b ↦ keyEq a.1 b.1 = false)
    (hvalues : ∀ item ∈ items, ∃ y, Keeps o item.2 y) : ∃ y, Keeps o (.dict items) y := by
  -- The keys stay what they are, so that no two items become one.
  obtain ⟨pairs, hpairs⟩ : ∃ pairs, List.Forall₂ (fun item pair : PyObj × PyObj ↦
      item.1 = pair.1 ∧ PlainKey pair.1 ∧ Keeps o item.2 pair.2) (kept o.ignoreKeys items) pairs := by
    refine exists_forall₂ fun item hitem ↦ ?_
    have hmem := mem_items_of_kept hitem
    obtain ⟨y, hy⟩ := hvalues item hmem
    exact ⟨(item.1, y), rfl, hkeys item hmem, hy⟩
  have hzip : (pairs.map Prod.fst).zip (pairs.map Prod.snd) = pairs := (List.zip_of_prod rfl rfl).symm
  have hfst : (kept o.ignoreKeys items).map Prod.fst = pairs.map Prod.fst := by
    rw [← List.forall₂_eq_eq_eq, List.forall₂_map_left_iff, List.forall₂_map_right_iff]
    exact hpairs.imp fun _ _ h ↦ h.1
  have hpairsKeys : ∀ k ∈ pairs.map Prod.fst, PlainKey k := by
    intro k hk
    obtain ⟨pair, hpair, rfl⟩ := List.mem_map.mp hk
    obtain ⟨item, -, -, hplain, -⟩ := exists_left_of_forall₂ hpairs hpair
    exact hplain
  have hpairsDistinct : pairs.Pairwise fun a b ↦ keyEq a.1 b.1 = false := by
    have hkept : ((kept o.ignoreKeys items).map Prod.fst).Pairwise fun a b ↦ keyEq a b = false :=
      List.pairwise_map.mpr (hdistinct.filter _)
    rw [hfst] at hkept
    exact List.pairwise_map.mp hkept
  have hdict : dictOf pairs [] = pairs := dictOf_of_distinct hpairsDistinct
  have hnonFinite (h : HasNonFinite o.ignoreKeys (.dict items)) : HasNonFinite [] (.dict pairs) := by
    cases h with
    | key _ item hitem h =>
        obtain ⟨pair, hpair, heq, hplain, -⟩ := exists_right_of_forall₂ hpairs hitem
        rw [heq] at h
        exact .key pairs pair ((kept_nil pairs).symm ▸ hpair) (hasNonFinite_key hplain h)
    | value _ item hitem h =>
        obtain ⟨pair, hpair, -, -, hkeeps⟩ := exists_right_of_forall₂ hpairs hitem
        exact .value pairs pair ((kept_nil pairs).symm ▸ hpair) (hkeeps.nonFinite h)
  refine ⟨.dict pairs, ?_, hnonFinite, ?_⟩
  · refine converted_dict_iff.mpr ⟨pairs.map Prod.fst, pairs.map Prod.snd, ?_, ?_, ?_, ?_⟩
    · rw [hfst]
      exact List.forall₂_same.mpr fun k hk ↦ converted_key_self htuple hsafe (hpairsKeys k hk)
    · rw [List.forall₂_map_left_iff, List.forall₂_map_right_iff]
      exact hpairs.imp fun _ _ h ↦ h.2.2.converted
    · exact fun k hk ↦ (hpairsKeys k hk).hashable
    · rw [hzip, hdict]
  · intro h
    cases h with
    | dict _ h => exact .dict pairs (hnonFinite h)

/-- Where tuples stay tuples and `json_safe` is false, a nesting keeps what is not
ignored. -/
theorem exists_keeps (htuple : o.tupleType = .tuple) (hsafe : o.jsonSafe = false) {x : PyObj}
    (hx : Plain x) : ∃ y, Keeps o x y := by
  refine hx.induction (motive := fun x ↦ ∃ y, Keeps o x y) ?_ ?_ ?_ ?_
  · intro x hx
    refine ⟨x, converted_scalar_self hsafe hx, hasNonFinite_key (.scalar hx), ?_⟩
    intro h
    cases hx <;> cases h
  · intro xs ih
    obtain ⟨ys, hys⟩ := exists_forall₂ ih
    refine ⟨.list ys, converted_list_iff.mpr ⟨ys, hys.imp fun _ _ h ↦ h.converted, rfl⟩, ?_, ?_⟩
    · rintro (_ | ⟨_, x, hx, h⟩)
      obtain ⟨y, hy, hkeeps⟩ := exists_right_of_forall₂ hys hx
      exact .list ys y hy (hkeeps.nonFinite h)
    · rintro ⟨_, x, hx, h⟩
      obtain ⟨y, hy, hkeeps⟩ := exists_right_of_forall₂ hys hx
      exact .list ys y hy (hkeeps.inDict h)
  · intro xs ih
    obtain ⟨ys, hys⟩ := exists_forall₂ ih
    refine ⟨.tuple ys, converted_tuple_iff.mpr ⟨ys, hys.imp fun _ _ h ↦ h.converted, by rw [htuple]⟩, ?_, ?_⟩
    · rintro (_ | _ | ⟨_, x, hx, h⟩)
      obtain ⟨y, hy, hkeeps⟩ := exists_right_of_forall₂ hys hx
      exact .tuple ys y hy (hkeeps.nonFinite h)
    · rintro (_ | ⟨_, x, hx, h⟩)
      obtain ⟨y, hy, hkeeps⟩ := exists_right_of_forall₂ hys hx
      exact .tuple ys y hy (hkeeps.inDict h)
  · exact fun items _ hkeys hdistinct _ ihvalues ↦ exists_keeps_dict htuple hsafe hkeys hdistinct ihvalues

end Loses

/-! ## The result -/

/-- All options apply at every level exactly when the values are to be safe for JSON,
or no float that is infinite or not a number is kept in a dict. -/
theorem options_apply_iff (ignoreKeys : List String) (jsonSafe : Bool) (x : PyObj) (hx : Plain x) :
    (∀ (tupleType : List PyObj → PyObj) (y : PyObj),
      convertToBaseTypes ⟨ignoreKeys, tupleType, jsonSafe⟩ x = .ok y ↔
        Converted ⟨ignoreKeys, tupleType, jsonSafe⟩ x y) ↔
      jsonSafe = true ∨ ¬InDict ignoreKeys x := by
  constructor
  · intro h
    by_contra hnot
    push Not at hnot
    obtain ⟨hsafe, hdict⟩ := hnot
    obtain ⟨y, hkeeps⟩ : ∃ y, Keeps ⟨ignoreKeys, .tuple, jsonSafe⟩ x y :=
      exists_keeps rfl (Bool.eq_false_iff.mpr hsafe) hx
    have hy := (h .tuple y).mpr hkeeps.converted
    exact not_inDict_converted rfl hx hy (hkeeps.inDict hdict)
  · rintro (rfl | hdict) tupleType y
    · exact convert_iff_of_jsonSafe rfl hx y
    · exact convert_iff_of_not_inDict hx hdict y

/-- `(float('nan'), {'a': 1})`. -/
def nanBesideDict : PyObj := .tuple [.float .nan, .dict [(.str "a", .int 1)]]

theorem plain_nanBesideDict : Plain nanBesideDict := by
  refine .tuple _ ?_
  simp only [List.mem_cons, List.not_mem_nil, or_false, forall_eq_or_imp, forall_eq]
  refine ⟨.key (.scalar (.float _)), .dict _ ?_ ?_ (List.pairwise_singleton _ _)⟩
  · simpa using PlainKey.scalar (.str "a")
  · simpa using Plain.key (.scalar (.int 1))

theorem options_apply_nanBesideDict :
    ¬InDict ["b"] nanBesideDict ∧ ∀ (tupleType : List PyObj → PyObj) (y : PyObj),
      convertToBaseTypes ⟨["b"], tupleType, false⟩ nanBesideDict = .ok y ↔
        Converted ⟨["b"], tupleType, false⟩ nanBesideDict y := by
  have hnot : ¬InDict ["b"] nanBesideDict := by
    rintro (_ | ⟨_, x, hx, h⟩)
    rcases List.mem_pair.mp hx with rfl | rfl
    · cases h
    · cases h with
      | dict _ h =>
          cases h with
          | key _ item hitem h =>
              obtain rfl := List.mem_singleton.mp (mem_items_of_kept hitem)
              cases h
          | value _ item hitem h =>
              obtain rfl := List.mem_singleton.mp (mem_items_of_kept hitem)
              cases h
  exact ⟨hnot, (options_apply_iff ["b"] false nanBesideDict plain_nanBesideDict).mpr (.inr hnot)⟩

/-- `convert_to_base_types({'a': float('nan')}, json_safe=False)`. -/
theorem not_options_apply_dict :
    convertToBaseTypes { jsonSafe := false } (.dict [(.str "a", .float .nan)]) =
        .ok (.dict [(.str "a", .str "nan")]) ∧
      ¬Converted { jsonSafe := false } (.dict [(.str "a", .float .nan)]) (.dict [(.str "a", .str "nan")]) := by
  refine ⟨rfl, fun h ↦ ?_⟩
  obtain ⟨keys, values, hkeys, hvalues, -, heq⟩ := converted_dict_iff.mp h
  rw [kept_nil] at hkeys hvalues
  obtain ⟨k, _, -, hnil, rfl⟩ := List.forall₂_cons_left_iff.mp hkeys
  obtain rfl := List.forall₂_nil_left_iff.mp hnil
  obtain ⟨v, _, hv, hnil, rfl⟩ := List.forall₂_cons_left_iff.mp hvalues
  obtain rfl := List.forall₂_nil_left_iff.mp hnil
  obtain rfl := converted_float_iff.mp hv
  cases heq

end OpenHtf.BaseTypes
