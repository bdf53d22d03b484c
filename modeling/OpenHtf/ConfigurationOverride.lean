import OpenHtf.ConfigurationLookup
import OpenHtf.Lib.Interleaving

/-!
# Loading without overriding

`load_from_dict` with `_override=False` looks for a key among the loaded values
before it decodes it.  A byte string that stands for a loaded key is not found
there, and when undeclared keys are allowed its value replaces the loaded one.
-/

set_option autoImplicit false

namespace OpenHtf.Configuration

open Act

/-! ## Loaded values -/

/-- The values that are loaded in `s` are also those of `s'`. -/
def KeepsLoaded (s s' : State) : Prop :=
  ∀ key v, s.loadedValues.lookup key = some v → s'.loadedValues.lookup key = some v

/-- One round of the loop, unless it raises. -/
def itemStep (allowUndeclared : Bool) (s : State) (item : Obj × Obj) : Option State :=
  match loadItem false allowUndeclared item.1 item.2 s with
  | (.ok (), s') => some s'
  | (.error _, _) => none

/-- In the state `s₁` the item is let through although it decodes to a key that is
loaded in `s`, with another value. -/
def Overrides (allowUndeclared : Bool) (s s₁ : State) (item : Obj × Obj) : Prop :=
  ((s₁.declarations.lookup item.1).isSome ∨ allowUndeclared = true) ∧
    s₁.loadedValues.lookup item.1 = none ∧
    ∃ key value v, item.1.decode = .ok key ∧ item.2.decode = .ok value ∧
      s.loadedValues.lookup key = some v ∧ value ≠ v

/-! ## Keys that decode to one string -/

theorem fromUTF8?_inj {a b : ByteArray} {s : String} (ha : String.fromUTF8? a = some s)
    (hb : String.fromUTF8? b = some s) : a = b := by
  unfold String.fromUTF8? at ha hb
  split at ha
  · split at hb
    · rw [← hb] at ha
      exact congrArg String.toByteArray (Option.some.inj ha)
    · cases hb
  · cases ha

/-- A key stands for another one only as a byte string. -/
theorem decode_inj {x y key : Obj} (hx : x.decode = .ok key) (hy : y.decode = .ok key) (hxne : x ≠ key)
    (hyne : y ≠ key) : x = y := by
  have hbytes {z : Obj} (hz : z.decode = .ok key) (hne : z ≠ key) :
      ∃ b s, z = .bytes b ∧ key = .str s ∧ String.fromUTF8? ⟨b.toArray⟩ = some s := by
    cases z with
    | str s => exact absurd (Except.ok.inj hz) hne
    | other id => exact absurd (Except.ok.inj hz) hne
    | bytes b =>
        simp only [Obj.decode] at hz
        split at hz
        · rename_i s hs
          exact ⟨b, s, rfl, (Except.ok.inj hz).symm, hs⟩
        · cases hz
  obtain ⟨b, s, rfl, rfl, hb⟩ := hbytes hx hxne
  obtain ⟨b', s', rfl, hs, hb'⟩ := hbytes hy hyne
  obtain rfl : s = s' := by simpa using hs
  have hlist : b.toArray = b'.toArray := congrArg ByteArray.data (fromUTF8?_inj hb hb')
  exact congrArg Obj.bytes (congrArg Array.toList hlist)

/-! ## One item -/

variable {allowUndeclared : Bool} {item : Obj × Obj} {items : List (Obj × Obj)} {s s₁ : State}

/-- The item is passed over, cannot be decoded, or is stored. -/
theorem loadItem_keep_cases (allowUndeclared : Bool) (item : Obj × Obj) (s₁ : State) :
    (loadItem false allowUndeclared item.1 item.2 s₁ = (.ok (), s₁) ∧
      ∀ s, ¬Overrides allowUndeclared s s₁ item) ∨
    (∃ e, loadItem false allowUndeclared item.1 item.2 s₁ = (.error e, s₁) ∧
      ∀ s, ¬Overrides allowUndeclared s s₁ item) ∨
    ∃ key value, item.1.decode = .ok key ∧ item.2.decode = .ok value ∧
      ((s₁.declarations.lookup item.1).isSome ∨ allowUndeclared = true) ∧
      s₁.loadedValues.lookup item.1 = none ∧
      loadItem false allowUndeclared item.1 item.2 s₁ =
        (.ok (), { s₁ with loadedValues := s₁.loadedValues.set key value }) := by
  rcases loadItem_cases false allowUndeclared item.1 item.2 s₁ with
    ⟨hload, hleft⟩ | ⟨hthrough, ⟨e, hload, hdecode⟩ | ⟨key, value, hkey, hvalue, hload⟩⟩
  · refine .inl ⟨hload, ?_⟩
    rintro s ⟨hallowed, hnew, -⟩
    rw [hnew] at hleft
    rcases hallowed with hdeclared | hallowed
    · simp [Option.isSome_iff_ne_none.mp hdeclared] at hleft
    · simp [hallowed] at hleft
  · refine .inr (.inl ⟨e, hload, ?_⟩)
    rintro s ⟨-, -, key, value, v, hkey, hvalue, -⟩
    exact hdecode key value ⟨hkey, hvalue⟩
  · refine .inr (.inr ⟨key, value, hkey, hvalue, ?_, ?_, hload⟩)
    · cases allowUndeclared with
      | true => exact .inr rfl
      | false =>
          left
          simp only [Bool.or_eq_false_iff, Bool.not_false, Bool.and_true] at hthrough
          simpa [Option.isSome_iff_ne_none] using hthrough.1
    · simp only [Bool.or_eq_false_iff, Bool.not_false, Bool.and_true] at hthrough
      simpa using hthrough.2

theorem lookup_set (s : State) (key key' value : Obj) :
    (s.loadedValues.set key value).lookup key' =
      if key' = key then some value else s.loadedValues.lookup key' :=
  lookup_dictSet key key' value s.loadedValues.items

/-- A loaded key that no other key stands for keeps its value. -/
theorem lookup_loadFromDict {key v : Obj} (hloaded : s₁.loadedValues.lookup key = some v)
    (hitems : ∀ item ∈ items, item.1 ≠ key → item.1.decode ≠ .ok key) :
    (loadFromDict false allowUndeclared items s₁).2.loadedValues.lookup key = some v := by
  induction items generalizing s₁ with
  | nil => exact hloaded
  | cons item items ih =>
      have hrest := fun i hi ↦ hitems i (List.mem_cons_of_mem item hi)
      simp only [loadFromDict, bind_apply]
      rcases loadItem_keep_cases allowUndeclared item s₁ with
        ⟨hload, -⟩ | ⟨e, hload, -⟩ | ⟨key', value, hkey', -, -, hnew, hload⟩
      · rw [hload]
        exact ih hloaded hrest
      · rw [hload]
        exact hloaded
      · rw [hload]
        refine ih ?_ hrest
        have hitem : item.1 ≠ key := by
          rintro rfl
          rw [hnew] at hloaded
          cases hloaded
        have hne : key ≠ key' := by
          rintro rfl
          exact hitems item List.mem_cons_self hitem hkey'
        rw [lookup_set, if_neg hne, hloaded]

/-! ## The result -/

/-- What is stored without overriding leaves the loaded values as they were. -/
theorem keepsLoaded_set {key value : Obj} (h : KeepsLoaded s s₁)
    (hallowed : (s₁.declarations.lookup item.1).isSome ∨ allowUndeclared = true)
    (hnew : s₁.loadedValues.lookup item.1 = none) (hkey : item.1.decode = .ok key)
    (hvalue : item.2.decode = .ok value) (hover : ¬Overrides allowUndeclared s s₁ item) :
    KeepsLoaded s { s₁ with loadedValues := s₁.loadedValues.set key value } := by
  intro key' v hv
  rw [lookup_set]
  split
  · rename_i heq
    by_contra hne
    exact hover ⟨hallowed, hnew, key, value, v, hkey, hvalue, heq ▸ hv, fun heq' ↦ hne (by rw [heq'])⟩
  · exact h key' v hv

/-- The items after one that overrides do not bring the loaded value back. -/
theorem not_keepsLoaded_of_overrides {key value : Obj} (hfirst : item.1 ∉ items.map Prod.fst)
    (h : KeepsLoaded s s₁) (hover : Overrides allowUndeclared s s₁ item) (hkey : item.1.decode = .ok key)
    (hvalue : item.2.decode = .ok value) :
    ¬KeepsLoaded s (loadFromDict false allowUndeclared items
      { s₁ with loadedValues := s₁.loadedValues.set key value }).2 := by
  obtain ⟨-, hnew, key', value', v, hkey', hvalue', hv, hne⟩ := hover
  obtain rfl : key = key' := by simpa [hkey] using hkey'
  obtain rfl : value = value' := by simpa [hvalue] using hvalue'
  have hitem : item.1 ≠ key := by
    intro heq
    rw [heq, h key v hv] at hnew
    cases hnew
  have hstays : (loadFromDict false allowUndeclared items
      { s₁ with loadedValues := s₁.loadedValues.set key value }).2.loadedValues.lookup key = some value := by
    refine lookup_loadFromDict ?_ fun item' hmem hne' hdecode ↦ ?_
    · rw [lookup_set, if_pos rfl]
    · rw [decode_inj hkey hdecode hitem hne'] at hfirst
      exact hfirst (List.mem_map_of_mem hmem)
  intro hkeeps
  exact hne (Option.some.inj (hstays.symm.trans (hkeeps key v hv)))

theorem keepsLoaded_iff_of_keepsLoaded (hnodup : (items.map Prod.fst).Nodup) (h : KeepsLoaded s s₁) :
    KeepsLoaded s (loadFromDict false allowUndeclared items s₁).2 ↔
      RunMeets (itemStep allowUndeclared) (fun s₁ item ↦ ¬Overrides allowUndeclared s s₁ item) items s₁ := by
  induction items generalizing s₁ with
  | nil => exact iff_of_true h trivial
  | cons item items ih =>
      obtain ⟨hfirst, hrest⟩ := List.nodup_cons.mp hnodup
      simp only [loadFromDict, bind_apply, RunMeets]
      rcases loadItem_keep_cases allowUndeclared item s₁ with
        ⟨hload, hnot⟩ | ⟨e, hload, hnot⟩ | ⟨key, value, hkey, hvalue, hallowed, hnew, hload⟩
      · have hstep : itemStep allowUndeclared s₁ item = some s₁ := by simp [itemStep, hload]
        rw [hload]
        simp only [hstep, Option.some.injEq, forall_eq']
        exact (ih hrest h).trans (and_iff_right (hnot s)).symm
      · have hstep : itemStep allowUndeclared s₁ item = none := by simp [itemStep, hload]
        rw [hload]
        simp only [hstep]
        exact iff_of_true h ⟨hnot s, by simp⟩
      · have hstep : itemStep allowUndeclared s₁ item =
            some { s₁ with loadedValues := s₁.loadedValues.set key value } := by simp [itemStep, hload]
        rw [hload]
        simp only [hstep, Option.some.injEq, forall_eq']
        by_cases hover : Overrides allowUndeclared s s₁ item
        · refine iff_of_false (fun hkeeps ↦ ?_) fun hmeets ↦ hmeets.1 hover
          exact not_keepsLoaded_of_overrides hfirst h hover hkey hvalue hkeeps
        · exact (ih hrest (keepsLoaded_set h hallowed hnew hkey hvalue hover)).trans
            (and_iff_right hover).symm

/-- The values that were loaded before a call of `load_from_dict` with
`_override=False` stay as they are exactly when no item that it comes to overrides
one. -/
theorem keepsLoaded_iff (allowUndeclared : Bool) (dictionary : Dict Obj Obj) (s : State) :
    KeepsLoaded s (loadFromDict false allowUndeclared dictionary.items s).2 ↔
      RunMeets (itemStep allowUndeclared) (fun s₁ item ↦ ¬Overrides allowUndeclared s s₁ item)
        dictionary.items s :=
  keepsLoaded_iff_of_keepsLoaded dictionary.nodup fun _ _ h ↦ h

/-! ## The defect -/

theorem decode_utf8 (s : String) : (Obj.bytes s.toByteArray.data.toList).decode = .ok (.str s) := by
  simp [Obj.decode, String.fromUTF8?, String.fromUTF8, s.isValidUTF8]

/-- The encoded name of a loaded key gives it any other value. -/
theorem not_keepsLoaded_utf8 {s : State} {name : String} {v value value' : Obj}
    (hloaded : s.loadedValues.lookup (.str name) = some v)
    (hnew : s.loadedValues.lookup (.bytes name.toByteArray.data.toList) = none)
    (hvalue : value.decode = .ok value') (hne : value' ≠ v) :
    ¬KeepsLoaded s
      (loadFromDict false true [(.bytes name.toByteArray.data.toList, value)] s).2 := by
  have hnodup : (([(.bytes name.toByteArray.data.toList, value)] : List (Obj × Obj)).map Prod.fst).Nodup := by
    simp
  intro hkeeps
  obtain ⟨hnot, -⟩ := (keepsLoaded_iff_of_keepsLoaded hnodup fun _ _ h ↦ h).mp hkeeps
  exact hnot ⟨.inr rfl, hnew, .str name, value', v, decode_utf8 name, hvalue, hloaded, hne⟩

/-- `conf.load(limit=5)`. -/
def limitLoaded : State :=
  { State.new none [] with loadedValues := ⟨[(.str "limit", .other 5)], List.nodup_cons.mpr ⟨nofun, List.nodup_nil⟩⟩ }

/-- `{b'limit': 7}`. -/
def limitInBytes : Dict Obj Obj :=
  ⟨[(.bytes "limit".toByteArray.data.toList, .other 7)], List.nodup_cons.mpr ⟨nofun, List.nodup_nil⟩⟩

theorem not_keepsLoaded_bytes :
    ¬KeepsLoaded limitLoaded (loadFromDict false true limitInBytes.items limitLoaded).2 := by
  have hloaded : limitLoaded.loadedValues.lookup (.str "limit") = some (.other 5) := rfl
  exact not_keepsLoaded_utf8 hloaded rfl rfl (by decide)

end OpenHtf.Configuration
