import Mathlib.Data.Rat.Defs
import OpenHtf.Record

/-!
# Conversion to base types

`util.data.convert_to_base_types` on objects of all the shapes that it tells apart.
-/

set_option autoImplicit false

namespace OpenHtf.BaseTypes

/-! ## Objects -/

inductive PyFloat where
  | finite (value : ℚ)
  | inf (negative : Bool)
  | nan
  deriving DecidableEq

/-- `str` of a float that is infinite or not a number. -/
def PyFloat.nonFinite : PyFloat → Option String
  | finite _ => none
  | inf false => some "inf"
  | inf true => some "-inf"
  | nan => some "nan"

/-- An object as `convert_to_base_types` sees it.  An enum member may be a string as
well; `integral` and `real` are numbers of other classes; what `_asdict` returns is a
dict or `None`, and the attributes of a record or an `attr` class are the items of a
dict; `other` has only its `str`. -/
inductive PyObj where
  | none
  | bool (b : Bool)
  | int (n : ℤ)
  | float (x : PyFloat)
  | str (s : String)
  | bytes (b : List UInt8)
  | list (xs : List PyObj)
  | tuple (xs : List PyObj)
  | dict (items : List (PyObj × PyObj))
  | strEnum (value : String)
  | enum (name : Option String) (text : Option String)
  | asBaseTypes (result : PyObj)
  | asDict (result : PyObj)
  | record (attributes : List (PyObj × PyObj)) (required : List String)
  | attrs (fields : List (PyObj × PyObj))
  | integral (n : ℤ)
  | real (x : Except PyExc PyFloat)
  | other (text : Except PyExc String)

namespace PyObj

def isNone : PyObj → Bool
  | none => true
  | _ => false

/-- `obj == s` for a string `s`. -/
def eqStr (s : String) : PyObj → Bool
  | str t => t == s
  | strEnum t => t == s
  | enum _ (some t) => t == s
  | _ => false

/-- The value of a number. -/
def number : PyObj → Option ℚ
  | bool b => some (if b then 1 else 0)
  | int n => some n
  | float (.finite x) => some x
  | _ => Option.none

/-- Equality of numbers, strings, bytes and `None`. -/
def scalarEq (x y : PyObj) : Bool :=
  match x.number, y.number with
  | some a, some b => a == b
  | _, _ =>
    match x, y with
    | none, none => true
    | float (.inf a), float (.inf b) => a == b
    | str a, str b => a == b
    | bytes a, bytes b => a == b
    | _, _ => false

mutual

/-- Equality of keys, once they are base types. -/
def keyEq : PyObj → PyObj → Bool
  | tuple xs, tuple ys => keyEqList xs ys
  | x, y => scalarEq x y

def keyEqList : List PyObj → List PyObj → Bool
  | [], [] => true
  | x :: xs, y :: ys => keyEq x y && keyEqList xs ys
  | _, _ => false

end

mutual

def hashable : PyObj → Bool
  | list _ | dict _ => false
  | tuple xs => hashableList xs
  | _ => true

def hashableList : List PyObj → Bool
  | [] => true
  | x :: xs => hashable x && hashableList xs

end

end PyObj

open PyObj

/-! ## The conversion -/

/-- Set an item of a dict; a key that is there already stays as it is. -/
def dictInsert (k v : PyObj) : List (PyObj × PyObj) → List (PyObj × PyObj)
  | [] => [(k, v)]
  | (k', v') :: items => if keyEq k' k then (k', v) :: items else (k', v') :: dictInsert k v items

def setItem (k v : PyObj) (items : List (PyObj × PyObj)) : Except PyExc (List (PyObj × PyObj)) :=
  if k.hashable then .ok (dictInsert k v items)
  else .error (.ofClass .TypeError "unhashable type")

/-- The arguments after the object. -/
structure Options where
  ignoreKeys : List String := []
  tupleType : List PyObj → PyObj := .tuple
  jsonSafe : Bool := true

/-- The arguments that are passed on for the items of a dict. -/
def Options.forItems (o : Options) : Options := { o with jsonSafe := true }

def Options.ignores (o : Options) (k : PyObj) : Bool := o.ignoreKeys.any (k.eqStr ·)

def convertFloat (o : Options) (x : PyFloat) : PyObj :=
  match x.nonFinite with
  | .some s => if o.jsonSafe then .str s else .float x
  | .none => .float x

mutual

def convertToBaseTypes (o : Options) : PyObj → Except PyExc PyObj
  | .asBaseTypes result => .ok result
  | .asDict result => convertToBaseTypes o result
  | .record attributes required =>
      .dict <$> convertItems o (fun k v ↦ !v.isNone || required.any (k.eqStr ·)) attributes []
  | .attrs fields => .dict <$> convertItems o (fun _ _ ↦ true) fields []
  | .strEnum value => .ok (.str value)
  | .enum name _ => .ok (name.elim .none .str)
  | .none => .ok .none
  | .bool b => .ok (.bool b)
  | .int n => .ok (.int n)
  | .str s => .ok (.str s)
  | .bytes b => .ok (.bytes b)
  | .dict items => .dict <$> convertItems o (fun _ _ ↦ true) items []
  | .list xs => .list <$> convertList o xs
  | .tuple xs => o.tupleType <$> convertList o xs
  | .integral n => .ok (.int n)
  | .float x => .ok (convertFloat o x)
  | .real x => convertFloat o <$> x
  | .other text => .str <$> text

def convertList (o : Options) : List PyObj → Except PyExc (List PyObj)
  | [] => .ok []
  | x :: xs => do
    let y ← convertToBaseTypes o x
    let ys ← convertList o xs
    pure (y :: ys)

/-- The dict comprehension over the items that are kept; `acc` are the items set before. -/
def convertItems (o : Options) (keep : PyObj → PyObj → Bool) :
    List (PyObj × PyObj) → List (PyObj × PyObj) → Except PyExc (List (PyObj × PyObj))
  | [], acc => .ok acc
  | item :: items, acc => do
    let acc ← convertItem o keep acc item
    convertItems o keep items acc

def convertItem (o : Options) (keep : PyObj → PyObj → Bool) (acc : List (PyObj × PyObj)) :
    PyObj × PyObj → Except PyExc (List (PyObj × PyObj))
  | (k, v) =>
    if keep k v && !o.ignores k then do
      let k ← convertToBaseTypes o.forItems k
      let v ← convertToBaseTypes o.forItems v
      setItem k v acc
    else .ok acc

end

/-! ## Base types -/

/-- A key made of base types: no float in it is infinite or not a number. -/
inductive BaseKey : PyObj → Prop
  | none : BaseKey .none
  | bool (b : Bool) : BaseKey (.bool b)
  | int (n : ℤ) : BaseKey (.int n)
  | float (x : ℚ) : BaseKey (.float (.finite x))
  | str (s : String) : BaseKey (.str s)
  | bytes (b : List UInt8) : BaseKey (.bytes b)
  | tuple (xs : List PyObj) (h : ∀ x ∈ xs, BaseKey x) : BaseKey (.tuple xs)

/-- A value made of base types.  The keys of a dict differ. -/
inductive IsBase : PyObj → Prop
  | key {x : PyObj} (h : BaseKey x) : IsBase x
  | list (xs : List PyObj) (h : ∀ x ∈ xs, IsBase x) : IsBase (.list xs)
  | tuple (xs : List PyObj) (h : ∀ x ∈ xs, IsBase x) : IsBase (.tuple xs)
  | dict (items : List (PyObj × PyObj)) (keys : ∀ item ∈ items, BaseKey item.1)
      (values : ∀ item ∈ items, IsBase item.2)
      (distinct : items.Pairwise fun a b ↦ keyEq a.1 b.1 = false) : IsBase (.dict items)

/-- A key of a nesting. -/
inductive NestedKey : PyObj → Prop
  | none : NestedKey .none
  | bool (b : Bool) : NestedKey (.bool b)
  | int (n : ℤ) : NestedKey (.int n)
  | float (x : PyFloat) : NestedKey (.float x)
  | str (s : String) : NestedKey (.str s)
  | bytes (b : List UInt8) : NestedKey (.bytes b)
  | strEnum (value : String) : NestedKey (.strEnum value)
  | enum (name text : Option String) : NestedKey (.enum name text)
  | integral (n : ℤ) : NestedKey (.integral n)
  | real (x : PyFloat) : NestedKey (.real (.ok x))
  | other (s : String) : NestedKey (.other (.ok s))
  | tuple (xs : List PyObj) (h : ∀ x ∈ xs, NestedKey x) : NestedKey (.tuple xs)

/-- A finite nesting of dicts, lists, tuples, enum members and scalars, and of the
objects that are converted by way of a dict of theirs. -/
inductive Nested : PyObj → Prop
  | key {x : PyObj} (h : NestedKey x) : Nested x
  | list (xs : List PyObj) (h : ∀ x ∈ xs, Nested x) : Nested (.list xs)
  | tuple (xs : List PyObj) (h : ∀ x ∈ xs, Nested x) : Nested (.tuple xs)
  | dict (items : List (PyObj × PyObj)) (keys : ∀ item ∈ items, NestedKey item.1)
      (values : ∀ item ∈ items, Nested item.2) : Nested (.dict items)
  | asBaseTypes (result : PyObj) (h : IsBase result) : Nested (.asBaseTypes result)
  | asDict (result : PyObj) (h : Nested result) : Nested (.asDict result)
  | record (attributes : List (PyObj × PyObj)) (required : List String)
      (keys : ∀ item ∈ attributes, NestedKey item.1) (values : ∀ item ∈ attributes, Nested item.2) :
      Nested (.record attributes required)
  | attrs (fields : List (PyObj × PyObj)) (keys : ∀ item ∈ fields, NestedKey item.1)
      (values : ∀ item ∈ fields, Nested item.2) : Nested (.attrs fields)

/-! ### Dicts -/

/-- The items of a dict of base types. -/
structure BaseItems (items : List (PyObj × PyObj)) : Prop where
  keys : ∀ item ∈ items, BaseKey item.1
  values : ∀ item ∈ items, IsBase item.2
  distinct : items.Pairwise fun a b ↦ keyEq a.1 b.1 = false

theorem BaseItems.isBase {items : List (PyObj × PyObj)} (h : BaseItems items) : IsBase (.dict items) :=
  .dict items h.keys h.values h.distinct

theorem mem_keys_dictInsert {k v : PyObj} {items : List (PyObj × PyObj)} {item : PyObj × PyObj}
    (h : item ∈ dictInsert k v items) : (item.1 = k ∨ ∃ old ∈ items, item.1 = old.1) ∧
      (item.2 = v ∨ ∃ old ∈ items, item.2 = old.2) := by
  induction items with
  | nil =>
      obtain rfl := List.mem_singleton.mp h
      exact ⟨.inl rfl, .inl rfl⟩
  | cons old items ih =>
      obtain ⟨k', v'⟩ := old
      rw [dictInsert] at h
      split at h
      · rcases List.mem_cons.mp h with rfl | h
        · exact ⟨.inr ⟨_, List.mem_cons_self, rfl⟩, .inl rfl⟩
        · exact ⟨.inr ⟨_, List.mem_cons_of_mem _ h, rfl⟩, .inr ⟨_, List.mem_cons_of_mem _ h, rfl⟩⟩
      · rcases List.mem_cons.mp h with rfl | h
        · exact ⟨.inr ⟨_, List.mem_cons_self, rfl⟩, .inr ⟨_, List.mem_cons_self, rfl⟩⟩
        · obtain ⟨hk, hv⟩ := ih h
          refine ⟨hk.imp id ?_, hv.imp id ?_⟩
          · exact fun ⟨old, hold, heq⟩ ↦ ⟨old, List.mem_cons_of_mem _ hold, heq⟩
          · exact fun ⟨old, hold, heq⟩ ↦ ⟨old, List.mem_cons_of_mem _ hold, heq⟩

theorem distinct_dictInsert {k v : PyObj} {items : List (PyObj × PyObj)}
    (h : items.Pairwise fun a b ↦ keyEq a.1 b.1 = false) :
    (dictInsert k v items).Pairwise fun a b ↦ keyEq a.1 b.1 = false := by
  induction items with
  | nil => exact List.pairwise_singleton _ _
  | cons old items ih =>
      obtain ⟨k', v'⟩ := old
      obtain ⟨hhead, htail⟩ := List.pairwise_cons.mp h
      rw [dictInsert]
      split
      · exact List.pairwise_cons.mpr ⟨hhead, htail⟩
      · rename_i hne
        refine List.pairwise_cons.mpr ⟨fun item hitem ↦ ?_, ih htail⟩
        rcases (mem_keys_dictInsert hitem).1 with hk | ⟨old, hold, hk⟩
        · rw [hk]
          exact Bool.eq_false_iff.mpr hne
        · rw [hk]
          exact hhead old hold

theorem BaseItems.dictInsert {k v : PyObj} {items : List (PyObj × PyObj)} (h : BaseItems items)
    (hk : BaseKey k) (hv : IsBase v) : BaseItems (dictInsert k v items) where
  keys item hitem := by
    rcases (mem_keys_dictInsert hitem).1 with heq | ⟨old, hold, heq⟩
    · exact heq ▸ hk
    · exact heq ▸ h.keys old hold
  values item hitem := by
    rcases (mem_keys_dictInsert hitem).2 with heq | ⟨old, hold, heq⟩
    · exact heq ▸ hv
    · exact heq ▸ h.values old hold
  distinct := distinct_dictInsert h.distinct

/-- An item with a new key comes last. -/
theorem dictInsert_of_distinct {k v : PyObj} {items : List (PyObj × PyObj)}
    (h : ∀ item ∈ items, keyEq item.1 k = false) : dictInsert k v items = items ++ [(k, v)] := by
  induction items with
  | nil => rfl
  | cons old items ih =>
      obtain ⟨k', v'⟩ := old
      have hne : ¬keyEq k' k = true := Bool.eq_false_iff.mp (h (k', v') List.mem_cons_self)
      rw [OpenHtf.BaseTypes.dictInsert, if_neg hne, ih fun item hitem ↦ h item (List.mem_cons_of_mem _ hitem)]
      rfl

theorem hashableList_of_forall {xs : List PyObj} (h : ∀ x ∈ xs, x.hashable = true) :
    hashableList xs = true := by
  induction xs with
  | nil => rfl
  | cons x xs ih =>
      rw [hashableList, h x List.mem_cons_self, Bool.true_and]
      exact ih fun y hy ↦ h y (List.mem_cons_of_mem _ hy)

theorem BaseKey.hashable {k : PyObj} (h : BaseKey k) : k.hashable = true := by
  induction h with
  | tuple xs h ih => exact hashableList_of_forall ih
  | _ => rfl

theorem setItem_baseKey {k v : PyObj} {items : List (PyObj × PyObj)} (h : BaseKey k) :
    setItem k v items = .ok (dictInsert k v items) := if_pos h.hashable

/-! ### The conversion of lists and dicts -/

theorem convertList_self {xs : List PyObj} (h : ∀ x ∈ xs, convertToBaseTypes {} x = .ok x) :
    convertList {} xs = .ok xs := by
  induction xs with
  | nil => rfl
  | cons x xs ih =>
      rw [convertList, h x List.mem_cons_self, ih fun y hy ↦ h y (List.mem_cons_of_mem _ hy)]
      rfl

theorem convertList_ok {P : PyObj → Prop} {xs : List PyObj}
    (h : ∀ x ∈ xs, ∃ y, convertToBaseTypes {} x = .ok y ∧ P y) :
    ∃ ys, convertList {} xs = .ok ys ∧ ∀ y ∈ ys, P y := by
  induction xs with
  | nil => exact ⟨[], rfl, nofun⟩
  | cons x xs ih =>
      obtain ⟨y, hy, hp⟩ := h x List.mem_cons_self
      obtain ⟨ys, hys, hps⟩ := ih fun z hz ↦ h z (List.mem_cons_of_mem _ hz)
      refine ⟨y :: ys, ?_, fun z hz ↦ ?_⟩
      · rw [convertList, hy, hys]
        rfl
      · rcases List.mem_cons.mp hz with rfl | hz
        · exact hp
        · exact hps z hz

/-- Without `ignore_keys` no key is ignored. -/
theorem ignores_default (k : PyObj) : Options.ignores {} k = false := rfl

/-- The items of a dict of base types are set one after the other. -/
theorem convertItems_self {items acc : List (PyObj × PyObj)} (h : BaseItems (acc ++ items))
    (hkeys : ∀ item ∈ items, convertToBaseTypes {} item.1 = .ok item.1)
    (hvalues : ∀ item ∈ items, convertToBaseTypes {} item.2 = .ok item.2) :
    convertItems {} (fun _ _ ↦ true) items acc = .ok (acc ++ items) := by
  induction items generalizing acc with
  | nil => rw [convertItems, List.append_nil]
  | cons item items ih =>
      obtain ⟨k, v⟩ := item
      have hk : convertToBaseTypes (Options.forItems {}) k = .ok k := hkeys (k, v) List.mem_cons_self
      have hv : convertToBaseTypes (Options.forItems {}) v = .ok v := hvalues (k, v) List.mem_cons_self
      have hbase : BaseKey k := h.keys (k, v) (by simp)
      have hnew : ∀ item ∈ acc, keyEq item.1 k = false := fun item hitem ↦
        (List.pairwise_append.mp h.distinct).2.2 item hitem (k, v) List.mem_cons_self
      have hitem : convertItem {} (fun _ _ ↦ true) acc (k, v) = .ok (acc ++ [(k, v)]) := by
        rw [convertItem, ignores_default, Bool.not_false, Bool.and_true, if_pos rfl, hk, hv,
          ← dictInsert_of_distinct hnew]
        exact setItem_baseKey hbase
      rw [List.append_cons acc] at h ⊢
      rw [convertItems, hitem]
      exact ih h (fun item hitem ↦ hkeys item (List.mem_cons_of_mem _ hitem))
        fun item hitem ↦ hvalues item (List.mem_cons_of_mem _ hitem)

theorem convertItems_ok {keep : PyObj → PyObj → Bool} {items acc : List (PyObj × PyObj)}
    (h : BaseItems acc) (hkeys : ∀ item ∈ items, ∃ y, convertToBaseTypes {} item.1 = .ok y ∧ BaseKey y)
    (hvalues : ∀ item ∈ items, ∃ y, convertToBaseTypes {} item.2 = .ok y ∧ IsBase y) :
    ∃ result, convertItems {} keep items acc = .ok result ∧ BaseItems result := by
  induction items generalizing acc with
  | nil => exact ⟨acc, rfl, h⟩
  | cons item items ih =>
      obtain ⟨k, v⟩ := item
      obtain ⟨k', hk, hk'⟩ := hkeys (k, v) List.mem_cons_self
      obtain ⟨v', hv, hv'⟩ := hvalues (k, v) List.mem_cons_self
      have hitem : ∃ acc', convertItem {} keep acc (k, v) = .ok acc' ∧ BaseItems acc' := by
        rw [convertItem]
        split
        · have hk : convertToBaseTypes (Options.forItems {}) k = .ok k' := hk
          have hv : convertToBaseTypes (Options.forItems {}) v = .ok v' := hv
          rw [hk, hv]
          exact ⟨_, setItem_baseKey hk', h.dictInsert hk' hv'⟩
        · exact ⟨acc, rfl, h⟩
      obtain ⟨acc', hacc, hbase⟩ := hitem
      rw [convertItems, hacc]
      exact ih hbase (fun item hitem ↦ hkeys item (List.mem_cons_of_mem _ hitem))
        fun item hitem ↦ hvalues item (List.mem_cons_of_mem _ hitem)

/-! ### Closure and idempotence -/

theorem convert_baseKey {x : PyObj} (h : BaseKey x) : convertToBaseTypes {} x = .ok x := by
  induction h with
  | tuple xs h ih =>
      rw [convertToBaseTypes, convertList_self ih]
      rfl
  | _ => rfl

/-- A value made of base types is left as it is. -/
theorem convert_isBase {x : PyObj} (h : IsBase x) : convertToBaseTypes {} x = .ok x := by
  induction h with
  | key h => exact convert_baseKey h
  | list xs h ih =>
      rw [convertToBaseTypes, convertList_self ih]
      rfl
  | tuple xs h ih =>
      rw [convertToBaseTypes, convertList_self ih]
      rfl
  | dict items keys values distinct ih =>
      have hitems : BaseItems ([] ++ items) := ⟨keys, values, distinct⟩
      rw [convertToBaseTypes, convertItems_self hitems (fun item hitem ↦ convert_baseKey (keys item hitem)) ih]
      rfl

theorem isBase_convertFloat (x : PyFloat) : BaseKey (convertFloat {} x) := by
  rcases x with x | negative | _
  · exact .float x
  · cases negative <;> exact .str _
  · exact .str _

theorem convert_nestedKey {x : PyObj} (h : NestedKey x) :
    ∃ y, convertToBaseTypes {} x = .ok y ∧ BaseKey y := by
  induction h with
  | none => exact ⟨_, rfl, .none⟩
  | bool b => exact ⟨_, rfl, .bool b⟩
  | int n => exact ⟨_, rfl, .int n⟩
  | float x => exact ⟨_, rfl, isBase_convertFloat x⟩
  | str s => exact ⟨_, rfl, .str s⟩
  | bytes b => exact ⟨_, rfl, .bytes b⟩
  | strEnum value => exact ⟨_, rfl, .str value⟩
  | enum name text =>
      cases name with
      | none => exact ⟨_, rfl, .none⟩
      | some name => exact ⟨_, rfl, .str name⟩
  | integral n => exact ⟨_, rfl, .int n⟩
  | real x => exact ⟨_, rfl, isBase_convertFloat x⟩
  | other s => exact ⟨_, rfl, .str s⟩
  | tuple xs h ih =>
      obtain ⟨ys, hys, hbase⟩ := convertList_ok ih
      rw [convertToBaseTypes, hys]
      exact ⟨_, rfl, .tuple ys hbase⟩

/-- The conversion is closed. -/
theorem convert_nested {x : PyObj} (h : Nested x) :
    ∃ y, convertToBaseTypes {} x = .ok y ∧ IsBase y := by
  have hnil : BaseItems [] := ⟨nofun, nofun, .nil⟩
  have hdict {keep : PyObj → PyObj → Bool} {items : List (PyObj × PyObj)}
      (keys : ∀ item ∈ items, NestedKey item.1)
      (values : ∀ item ∈ items, ∃ y, convertToBaseTypes {} item.2 = .ok y ∧ IsBase y) :
      ∃ y, PyObj.dict <$> convertItems {} keep items [] = .ok y ∧ IsBase y := by
    have hkeys item (hitem : item ∈ items) := convert_nestedKey (keys item hitem)
    obtain ⟨result, hresult, hbase⟩ :
        ∃ result, convertItems {} keep items [] = .ok result ∧ BaseItems result :=
      convertItems_ok hnil hkeys values
    rw [hresult]
    exact ⟨_, rfl, hbase.isBase⟩
  induction h with
  | key h =>
      obtain ⟨y, hy, hbase⟩ := convert_nestedKey h
      exact ⟨y, hy, .key hbase⟩
  | list xs h ih =>
      obtain ⟨ys, hys, hbase⟩ := convertList_ok ih
      rw [convertToBaseTypes, hys]
      exact ⟨_, rfl, .list ys hbase⟩
  | tuple xs h ih =>
      obtain ⟨ys, hys, hbase⟩ := convertList_ok ih
      rw [convertToBaseTypes, hys]
      exact ⟨_, rfl, .tuple ys hbase⟩
  | dict items keys values ih =>
      rw [convertToBaseTypes]
      exact hdict keys ih
  | asBaseTypes result h => exact ⟨result, rfl, h⟩
  | asDict result h ih =>
      rw [convertToBaseTypes]
      exact ih
  | record attributes required keys values ih =>
      rw [convertToBaseTypes]
      exact hdict keys ih
  | attrs fields keys values ih =>
      rw [convertToBaseTypes]
      exact hdict keys ih

theorem closed_and_idempotent (x : PyObj) (h : Nested x) :
    ∃ y, convertToBaseTypes {} x = .ok y ∧ IsBase y ∧ convertToBaseTypes {} y = .ok y := by
  obtain ⟨y, hy, hbase⟩ := convert_nested h
  exact ⟨y, hy, hbase, convert_isBase hbase⟩

/-- A dict in which an infinite key becomes the same as a string. -/
theorem closed_and_idempotent_infinite :
    ∃ y, convertToBaseTypes {} (.dict [(.float (.inf false), .list [.float .nan]), (.str "inf", .none)]) =
      .ok y ∧ IsBase y ∧ convertToBaseTypes {} y = .ok y := by
  refine closed_and_idempotent _ (.dict _ ?_ ?_)
  · simp only [List.mem_cons, List.not_mem_nil, or_false, forall_eq_or_imp, forall_eq]
    exact ⟨.float _, .str _⟩
  · simp only [List.mem_cons, List.not_mem_nil, or_false, forall_eq_or_imp, forall_eq]
    refine ⟨.list _ fun x hx ↦ ?_, .key .none⟩
    obtain rfl := List.mem_singleton.mp hx
    exact .key (.float _)

end OpenHtf.BaseTypes
