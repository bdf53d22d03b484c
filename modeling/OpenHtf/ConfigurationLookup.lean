import OpenHtf.Configuration

/-!
# The three lookups of the configuration

`__contains__`, `__getitem__` and `_asdict` each consult the flag values, the
loaded values and the defaults.  The first two agree in every state, and
`_asdict` agrees with them exactly if every loaded key is declared.
-/

set_option autoImplicit false

namespace OpenHtf.Configuration

open Act

/-! ## One state -/

/-- `key in conf` holds exactly if `conf[key]` does not raise, and `_asdict` maps
these keys to `conf[key]`. -/
def Coherent (s : State) : Prop :=
  (∀ key, contains s key = true ↔ ∃ v, getItem s key = .ok v) ∧
    ∀ key v, (asDict s).lookup key = some v ↔ getItem s key = .ok v

def State.Declares (s : State) (key : Obj) : Prop := (s.declarations.lookup key).isSome = true

def AllDeclared (s : State) : Prop := ∀ key, (s.loadedValues.lookup key).isSome = true → s.Declares key

theorem contains_iff (s : State) (key : Obj) :
    contains s key = true ↔ ∃ v, getItem s key = .ok v := by
  unfold contains getItem
  cases hd : s.declarations.lookup key with
  | none => simp
  | some declaration =>
      cases hf : s.flagValues.lookup key with
      | some v => simp
      | none =>
          cases hl : s.loadedValues.lookup key with
          | some v => simp
          | none => cases hv : declaration.defaultValue <;> simp [Declaration.hasDefault, hv]

theorem lookup_asDict (s : State) (key : Obj) :
    (asDict s).lookup key =
      ((s.flagValues.lookup key).bind fun v ↦
          if (s.declarations.lookup key).isSome then some v else none).or
        ((s.loadedValues.lookup key).or ((s.declarations.lookup key).bind (·.defaultValue))) := by
  unfold asDict
  rw [Dict.lookup_update, Dict.lookup_filterMap, Dict.lookup_update, Dict.lookup_filterMap]

theorem lookup_asDict_of_declares {s : State} {key : Obj} (h : s.Declares key) (v : Obj) :
    (asDict s).lookup key = some v ↔ getItem s key = .ok v := by
  obtain ⟨declaration, hd⟩ := Option.isSome_iff_exists.mp h
  rw [lookup_asDict, getItem, hd]
  cases hf : s.flagValues.lookup key with
  | some w => simp
  | none =>
      cases hl : s.loadedValues.lookup key with
      | some w => simp
      | none => cases hv : declaration.defaultValue <;> simp [hv]

/-- A key that is not declared cannot be read, but `_asdict` has it if it was loaded. -/
theorem lookup_asDict_of_not_declares {s : State} {key : Obj} (h : ¬s.Declares key) :
    (asDict s).lookup key = s.loadedValues.lookup key ∧ ∀ v, getItem s key ≠ .ok v := by
  have hd : s.declarations.lookup key = none := by simpa [State.Declares] using h
  constructor
  · rw [lookup_asDict, hd]
    cases s.flagValues.lookup key <;> simp
  · intro v
    simp [getItem, hd]

theorem coherent_iff (s : State) : Coherent s ↔ AllDeclared s := by
  constructor
  · rintro ⟨-, hdict⟩ key hloaded
    by_contra hnot
    obtain ⟨hlookup, hraises⟩ := lookup_asDict_of_not_declares hnot
    obtain ⟨v, hv⟩ := Option.isSome_iff_exists.mp hloaded
    exact hraises v ((hdict key v).mp (hlookup.trans hv))
  · intro hall
    refine ⟨contains_iff s, fun key v ↦ ?_⟩
    by_cases hkey : s.Declares key
    · exact lookup_asDict_of_declares hkey v
    · obtain ⟨hlookup, hraises⟩ := lookup_asDict_of_not_declares hkey
      have hnone : s.loadedValues.lookup key = none := by
        by_contra hsome
        exact hkey (hall key (Option.isSome_iff_ne_none.mpr hsome))
      rw [hlookup, hnone]
      exact iff_of_false (by simp) (hraises v)

/-! ## Loading -/

/-- Where an item is stored, its key is declared. -/
def ItemDeclared (override allowUndeclared : Bool) (key value : Obj) (s : State) : Prop :=
  allowUndeclared = true → ((s.loadedValues.lookup key).isSome = true → override = true) →
    ∀ key' value', key.decode = .ok key' → value.decode = .ok value' → s.Declares key'

def LoadsDeclared (override allowUndeclared : Bool) : List (Obj × Obj) → State → Prop
  | [], _ => True
  | (key, value) :: items, s =>
      ItemDeclared override allowUndeclared key value s ∧
        ∀ s', loadItem override allowUndeclared key value s = (.ok (), s') →
          LoadsDeclared override allowUndeclared items s'

/-- The names of declarations are strings. -/
def NamesStr (s : State) : Prop := ∀ key, s.Declares key → ∃ name, key = .str name

theorem NamesStr.decode {s : State} (h : NamesStr s) {key : Obj} (hkey : s.Declares key) :
    key.decode = .ok key := by
  obtain ⟨name, rfl⟩ := h key hkey
  rfl

/-- An item is left as it is, cannot be decoded, or is stored. -/
theorem loadItem_cases (override allowUndeclared : Bool) (key value : Obj) (s : State) :
    (loadItem override allowUndeclared key value s = (.ok (), s) ∧
      ((s.declarations.lookup key).isNone && !allowUndeclared ||
        (s.loadedValues.lookup key).isSome && !override) = true) ∨
    (((s.declarations.lookup key).isNone && !allowUndeclared ||
        (s.loadedValues.lookup key).isSome && !override) = false ∧
      ((∃ e, loadItem override allowUndeclared key value s = (.error e, s) ∧
          ∀ key' value', ¬(key.decode = .ok key' ∧ value.decode = .ok value')) ∨
        ∃ key' value', key.decode = .ok key' ∧ value.decode = .ok value' ∧
          loadItem override allowUndeclared key value s =
            (.ok (), { s with loadedValues := s.loadedValues.set key' value' }))) := by
  simp only [loadItem, bind_apply, gets_apply, andThen, id_eq]
  split
  · rename_i hleft
    exact .inl ⟨rfl, by rw [hleft, Bool.true_or]⟩
  rename_i hleft
  split
  · rename_i hkept
    exact .inl ⟨rfl, by rw [hkept, Bool.or_true]⟩
  rename_i hkept
  have hstored := Bool.or_eq_false_iff.mpr ⟨Bool.eq_false_iff.mpr hleft, Bool.eq_false_iff.mpr hkept⟩
  refine .inr ⟨hstored, ?_⟩
  cases hkey : key.decode with
  | error e => exact .inl ⟨e, rfl, by simp⟩
  | ok key' =>
      cases hvalue : value.decode with
      | error e => exact .inl ⟨e, by simp [liftExcept, andThen], by simp⟩
      | ok value' => exact .inr ⟨key', value', rfl, rfl, by simp [liftExcept, andThen]⟩

theorem allDeclared_set {s : State} {key value : Obj} :
    AllDeclared { s with loadedValues := s.loadedValues.set key value } ↔
      AllDeclared s ∧ s.Declares key := by
  have hlookup (k : Obj) : (s.loadedValues.set key value).lookup k =
      if k = key then some value else s.loadedValues.lookup k :=
    lookup_dictSet key k value s.loadedValues.items
  constructor
  · intro h
    refine ⟨fun k hk ↦ ?_, h key (by simp [hlookup])⟩
    apply h k
    simp only [hlookup]
    split
    · rfl
    · exact hk
  · rintro ⟨hall, hkey⟩ k hk
    simp only [hlookup] at hk
    by_cases heq : k = key
    · exact heq ▸ hkey
    · rw [if_neg heq] at hk
      exact hall k hk

theorem allDeclared_loadItem {override allowUndeclared : Bool} {key value : Obj} {s : State}
    (hnames : NamesStr s) :
    AllDeclared (loadItem override allowUndeclared key value s).2 ↔
      AllDeclared s ∧ ItemDeclared override allowUndeclared key value s := by
  rcases loadItem_cases override allowUndeclared key value s with
    ⟨hload, hleft⟩ | ⟨hstored, ⟨e, hload, hdecode⟩ | ⟨key', value', hkey, hvalue, hload⟩⟩
  · rw [hload]
    refine (and_iff_left ?_).symm
    intro hallow hoverride
    rw [hallow, Bool.not_true, Bool.and_false, Bool.false_or, Bool.and_eq_true] at hleft
    simp [hoverride hleft.1] at hleft
  · rw [hload]
    refine (and_iff_left ?_).symm
    exact fun _ _ key' value' hkey hvalue ↦ (hdecode key' value' ⟨hkey, hvalue⟩).elim
  · rw [hload, allDeclared_set]
    refine and_congr_right fun _ ↦ ?_
    constructor
    · intro hdeclares _ _ key'' value'' hkey'' _
      obtain rfl : key' = key'' := by simpa [hkey] using hkey''
      exact hdeclares
    · intro hitem
      rw [Bool.or_eq_false_iff] at hstored
      cases allowUndeclared with
      | true =>
          refine hitem rfl (fun hsome ↦ ?_) key' value' hkey hvalue
          simpa [hsome] using hstored.2
      | false =>
          -- The key itself is declared, and decoding it changes nothing.
          have hdeclares : s.Declares key := by
            have h := hstored.1
            rw [Bool.not_false, Bool.and_true] at h
            simpa [State.Declares, Option.isSome_iff_ne_none] using h
          obtain rfl : key = key' := by simpa [hnames.decode hdeclares] using hkey
          exact hdeclares

theorem declarations_loadItem (override allowUndeclared : Bool) (key value : Obj) (s : State) :
    (loadItem override allowUndeclared key value s).2.declarations = s.declarations := by
  rcases loadItem_cases override allowUndeclared key value s with
    ⟨hload, -⟩ | ⟨-, ⟨e, hload, -⟩ | ⟨key', value', -, -, hload⟩⟩ <;> rw [hload]

theorem NamesStr.of_declarations {s s' : State} (h : NamesStr s)
    (heq : s'.declarations = s.declarations) : NamesStr s' := by
  intro key hkey
  apply h
  rwa [State.Declares, ← heq]

theorem allDeclared_loadFromDict {override allowUndeclared : Bool} {items : List (Obj × Obj)}
    {s : State} (hnames : NamesStr s) :
    AllDeclared (loadFromDict override allowUndeclared items s).2 ↔
      AllDeclared s ∧ LoadsDeclared override allowUndeclared items s := by
  induction items generalizing s with
  | nil => exact (and_iff_left trivial).symm
  | cons item items ih =>
      obtain ⟨key, value⟩ := item
      have hitem : AllDeclared (loadItem override allowUndeclared key value s).2 ↔
          AllDeclared s ∧ ItemDeclared override allowUndeclared key value s :=
        allDeclared_loadItem hnames
      simp only [loadFromDict, LoadsDeclared, bind_apply]
      rcases hload : loadItem override allowUndeclared key value s with ⟨e | ⟨⟩, s'⟩
      · rw [hload] at hitem
        refine hitem.trans (and_congr_right fun _ ↦ (and_iff_left ?_).symm)
        intro s'' h
        simp at h
      · have hdeclarations := declarations_loadItem override allowUndeclared key value s
        rw [hload] at hitem hdeclarations
        refine (ih (hnames.of_declarations hdeclarations)).trans ?_
        rw [hitem, and_assoc]
        refine and_congr_right fun _ ↦ and_congr_right fun _ ↦ ?_
        constructor
        · intro h s'' hs''
          obtain rfl : s' = s'' := by simpa using hs''
          exact h
        · exact fun h ↦ h s' rfl

theorem declarations_loadFromDict (override allowUndeclared : Bool) (items : List (Obj × Obj))
    (s : State) :
    (loadFromDict override allowUndeclared items s).2.declarations = s.declarations := by
  induction items generalizing s with
  | nil => rfl
  | cons item items ih =>
      have hitem := declarations_loadItem override allowUndeclared item.1 item.2 s
      simp only [loadFromDict, bind_apply]
      rcases hload : loadItem override allowUndeclared item.1 item.2 s with ⟨e | ⟨⟩, s'⟩
      · rwa [hload] at hitem
      · rw [hload] at hitem
        exact (ih s').trans hitem

/-! ## Runs -/

variable (lib : Library)

/-- The items that the file of the flag will give. -/
def State.fileItems (s : State) : Option (List (Obj × Obj)) :=
  s.configFile.bind fun file ↦ (lib.safeLoad file.rest).bind lib.asDict

/-- Nothing is loaded, and the file has been read. -/
def State.emptied (s : State) : State :=
  { s with
    loadedValues := ⟨[], List.nodup_nil⟩
    configFile := s.configFile.map fun file ↦ { file with rest := "" } }

/-- The values that an operation loads have declared keys. -/
def Op.LoadsDeclared (s : State) : Op → Prop
  | load override allowUndeclared kwargs =>
      Configuration.LoadsDeclared override allowUndeclared
        (kwargs.map fun item ↦ (.str item.1, item.2)) s
  | loadFromDict override allowUndeclared dictionary =>
      Configuration.LoadsDeclared override allowUndeclared dictionary s
  | reset => ∀ items, s.fileItems lib = some items →
      Configuration.LoadsDeclared true true items s.emptied
  | declare .. | loadFlagValues .. => True

def RunLoadsDeclared : List Op → State → Prop
  | [], _ => True
  | op :: ops, s => op.LoadsDeclared lib s ∧ RunLoadsDeclared ops (op.step lib s)

variable {lib}

theorem declare_cases (name : String) (description : Option String) (defaultValue : Option Obj)
    (s : State) :
    (declare lib name description defaultValue s).2 = s ∨
      (declare lib name description defaultValue s).2 =
        { s with declarations := s.declarations.set (.str name) ⟨name, description, defaultValue⟩ } := by
  unfold declare
  split
  · exact .inl rfl
  · simp only [bind_apply, gets_apply, andThen]
    split
    · exact .inl rfl
    · exact .inr rfl

theorem declares_declare {s : State} {name : String} {declaration : Declaration} {key : Obj} :
    State.Declares { s with declarations := s.declarations.set (.str name) declaration } key ↔
      key = .str name ∨ s.Declares key := by
  have hlookup : (s.declarations.set (.str name) declaration).lookup key =
      if key = .str name then some declaration else s.declarations.lookup key :=
    lookup_dictSet _ key declaration s.declarations.items
  rw [State.Declares, hlookup]
  by_cases heq : key = .str name
  · simp [heq]
  · simp [heq, State.Declares]

/-- Only the flag values change. -/
theorem loadFlagValues_state (flags : Option (List String)) (s : State) :
    ∃ flagValues, (loadFlagValues lib flags s).2 = { s with flagValues := flagValues } := by
  have hone (keyval : String) (s : State) :
      ∃ flagValues, (loadFlagValue lib keyval s).2 = { s with flagValues := flagValues } := by
    unfold loadFlagValue
    cases hsplit : splitKeyval keyval with
    | error e => exact ⟨s.flagValues, rfl⟩
    | ok pair =>
        obtain ⟨k, v⟩ := pair
        simp only [liftExcept, bind_apply, ofExcept_apply, andThen]
        cases lib.safeLoad v with
        | none => exact ⟨s.flagValues, rfl⟩
        | some v =>
            cases hdecode : v.decode with
            | error e => exact ⟨s.flagValues, by simp [andThen, hdecode]⟩
            | ok v =>
                simp only [bind_apply, ofExcept_apply, hdecode, andThen, modify_apply]
                split
                · exact ⟨s.flagValues, rfl⟩
                · exact ⟨_, rfl⟩
  have hlist (keyvals : List String) (s : State) :
      ∃ flagValues, (loadFlagValueList lib keyvals s).2 = { s with flagValues := flagValues } := by
    induction keyvals generalizing s with
    | nil => exact ⟨s.flagValues, rfl⟩
    | cons keyval keyvals ih =>
        obtain ⟨flagValues, hhead⟩ := hone keyval s
        simp only [loadFlagValueList, bind_apply]
        rcases hload : loadFlagValue lib keyval s with ⟨e | ⟨⟩, s'⟩
        · rw [hload] at hhead
          exact ⟨flagValues, hhead⟩
        · rw [hload] at hhead
          obtain ⟨flagValues', htail⟩ := ih s'
          refine ⟨flagValues', htail.trans ?_⟩
          rw [show s' = { s with flagValues := flagValues } from hhead]
  exact hlist _ s

/-- Flags are neither declared nor loaded. -/
theorem sameLoaded_loadFlagValues (flags : Option (List String)) (s : State) :
    (loadFlagValues lib flags s).2.declarations = s.declarations ∧
      (loadFlagValues lib flags s).2.loadedValues = s.loadedValues := by
  obtain ⟨flagValues, hs'⟩ := loadFlagValues_state flags s
  rw [hs']
  exact ⟨rfl, rfl⟩

/-- A reset begins with no loaded values, and loads the items of the file, if there
are any. -/
theorem reset_state (s : State) :
    (reset lib s).2 = match s.fileItems lib with
      | none => s.emptied
      | some items => (loadFromDict true true items s.emptied).2 := by
  obtain ⟨declarations, flagValues, loadedValues, configFile, configValue⟩ := s
  simp only [reset, State.fileItems, State.emptied, bind_apply, modify_apply, gets_apply, andThen]
  cases configFile with
  | none => rfl
  | some file =>
      simp only [loadFromFile, bind_apply, modify_apply, andThen, Option.bind_some, Option.map_some]
      cases lib.safeLoad file.rest with
      | none => rfl
      | some parsed =>
          simp only [Option.bind_some]
          cases lib.asDict parsed <;> rfl

theorem allDeclared_reset {s : State} (hnames : NamesStr s) :
    AllDeclared (reset lib s).2 ↔ Op.LoadsDeclared lib s .reset := by
  have hempty : AllDeclared s.emptied := by
    intro key hkey
    cases hkey
  rw [reset_state, Op.LoadsDeclared]
  cases hitems : s.fileItems lib with
  | none => exact iff_of_true hempty nofun
  | some items =>
      have hload : AllDeclared (loadFromDict true true items s.emptied).2 ↔ _ :=
        allDeclared_loadFromDict (hnames.of_declarations rfl)
      rw [hload, and_iff_right hempty]
      exact ⟨fun h items' heq ↦ Option.some.inj heq ▸ h, fun h ↦ h items rfl⟩

theorem declarations_reset (s : State) : (reset lib s).2.declarations = s.declarations := by
  rw [reset_state]
  cases s.fileItems lib with
  | none => rfl
  | some items => exact declarations_loadFromDict ..

theorem NamesStr.step {s : State} (h : NamesStr s) (op : Op) : NamesStr (op.step lib s) := by
  cases op with
  | declare name description defaultValue =>
      rcases declare_cases name description defaultValue s with hsame | hset
      · exact h.of_declarations (congrArg State.declarations hsame)
      · intro key hkey
        rw [Op.step, Op.execute, hset, declares_declare] at hkey
        exact hkey.elim (fun heq ↦ ⟨name, heq⟩) (h key)
  | load override allowUndeclared kwargs =>
      exact h.of_declarations (declarations_loadFromDict ..)
  | loadFromDict override allowUndeclared dictionary =>
      exact h.of_declarations (declarations_loadFromDict ..)
  | loadFlagValues flags => exact h.of_declarations (sameLoaded_loadFlagValues flags s).1
  | reset => exact h.of_declarations (declarations_reset s)

/-- A step from a state whose loaded keys are declared keeps them so exactly if
what it loads has declared keys. -/
theorem allDeclared_step {s : State} (hnames : NamesStr s) (h : AllDeclared s) (op : Op) :
    AllDeclared (op.step lib s) ↔ op.LoadsDeclared lib s := by
  cases op with
  | declare name description defaultValue =>
      refine iff_of_true ?_ trivial
      rcases declare_cases name description defaultValue s with hsame | hset
      · rwa [Op.step, Op.execute, hsame]
      · intro key hkey
        rw [Op.step, Op.execute, hset] at hkey ⊢
        exact declares_declare.mpr (.inr (h key hkey))
  | load override allowUndeclared kwargs =>
      exact (allDeclared_loadFromDict hnames).trans (and_iff_right h)
  | loadFromDict override allowUndeclared dictionary =>
      exact (allDeclared_loadFromDict hnames).trans (and_iff_right h)
  | loadFlagValues flags =>
      obtain ⟨hdeclarations, hloaded⟩ := (sameLoaded_loadFlagValues flags s :
        (loadFlagValues lib flags s).2.declarations = _ ∧ _)
      refine iff_of_true (fun key hkey ↦ ?_) trivial
      rw [Op.step, Op.execute, hloaded] at hkey
      rw [Op.step, Op.execute, State.Declares, hdeclarations]
      exact h key hkey
  | reset => exact allDeclared_reset hnames

theorem coherent_run {ops : List Op} {s : State} (hnames : NamesStr s) (h : AllDeclared s) :
    (∀ k, Coherent (run lib (ops.take k) s)) ↔ RunLoadsDeclared lib ops s := by
  induction ops generalizing s with
  | nil => exact iff_of_true (fun k ↦ by simpa [run, coherent_iff] using h) trivial
  | cons op ops ih =>
      have hhead : AllDeclared (op.step lib s) ↔ op.LoadsDeclared lib s := allDeclared_step hnames h op
      constructor
      · intro hall
        have hstep := hall 1
        rw [List.take_succ_cons, List.take_zero, run, run, coherent_iff] at hstep
        exact ⟨hhead.mp hstep, (ih (hnames.step op) hstep).mp fun k ↦ hall (k + 1)⟩
      · rintro ⟨hop, hrest⟩ k
        cases k with
        | zero => exact (coherent_iff s).mpr h
        | succ k => exact (ih (hnames.step op) (hhead.mpr hop)).mpr hrest k

/-- The lookups agree in every state of a run if and only if every value that the
run loads is loaded under a declared key. -/
theorem lookups_coherent_iff (lib : Library) (configFile : Option ConfigFile)
    (configValue : List String) (ops : List Op) :
    (∀ k, Coherent (run lib (ops.take k) (State.new configFile configValue))) ↔
      RunLoadsDeclared lib ops (State.new configFile configValue) := by
  apply coherent_run
  · intro key hkey
    cases hkey
  · intro key hkey
    cases hkey

/-- No file is given, so that nothing is parsed. -/
def noYaml : Library where
  islower c := c.isLower
  safeLoad _ := none
  asDict _ := none

/-- After `load_from_dict({'k': 'v'}, _allow_undeclared=True)` the key is in
`_asdict`, and reading it raises. -/
theorem not_coherent_undeclared : ¬Coherent
    (run noYaml [.loadFromDict true true [(.str "k", .str "v")]] (State.new none [])) := by
  rintro ⟨-, hdict⟩
  have hget := (hdict (.str "k") (.str "v")).mp (by decide)
  revert hget
  decide

end OpenHtf.Configuration
