import OpenHtf.ConfigurationLookup

/-!
# Restoring the configuration

`save_and_restore` puts the loaded values back after the function that it
decorates, whatever the function does.  `reset` goes back to no loaded values and
reads the file of `--config-file` again; the file object of the parsed flags has
been read to its end at import, so that with a file `reset` raises.
-/

set_option autoImplicit false

namespace OpenHtf.Configuration

open Act

variable {lib : Library}

/-! ## Functions that are decorated -/

/-- An exception of the configuration or one of the function's own. -/
inductive Raised where
  | conf (e : ConfError)
  | user (id : ℕ)
  deriving DecidableEq

/-- The flags stay as they are. -/
def Op.keepsFlags : Op → Bool
  | loadFlagValues _ => false
  | _ => true

/-- The body of a function: it returns or raises, or it goes on with what a read
or a call came to. -/
inductive Body (α : Type) where
  | done (result : Except Raised α)
  | getItem (item : Obj) (next : Except ConfError Obj → Body α)
  | call (op : { op : Op // op.keepsFlags }) (next : Except ConfError Unit → Body α)
  | decorated (configValues : List (String × Obj)) (func : Body α) (next : Except Raised α → Body α)

def liftConf {α : Type} (x : Stmt α) : Act State Raised α := fun s ↦
  let (r, s') := x s
  (r.mapError .conf, s')

variable {α : Type}

/-- `save_and_restore`. -/
def saveAndRestore (configValues : List (String × Obj)) (func : Act State Raised α) :
    Act State Raised α := do
  let savedConfig ← Act.gets (·.loadedValues)
  finally'
    (do
      liftConf (load true false configValues)
      func)
    (Act.modify fun s ↦ { s with loadedValues := savedConfig })

/-- Go on with an outcome, in the state that was reached. -/
def thenContinue {β : Type} {ε : Type} (next : Except ε β → Act State Raised α) (x : Act State ε β) :
    Act State Raised α := fun s ↦
  let (r, s') := x s
  next r s'

def Body.exec (lib : Library) : Body α → Act State Raised α
  | done result => Act.ofExcept result
  | getItem item next => fun s ↦ (next (Configuration.getItem s item)).exec lib s
  | call op next => thenContinue (fun r ↦ (next r).exec lib) (op.val.execute lib)
  | decorated configValues func next =>
      thenContinue (fun r ↦ (next r).exec lib) (saveAndRestore configValues (func.exec lib))

/-! ## What an operation changes -/

theorem loadFromDict_state (override allowUndeclared : Bool) (items : List (Obj × Obj)) (s : State) :
    ∃ loaded, (loadFromDict override allowUndeclared items s).2 = { s with loadedValues := loaded } := by
  induction items generalizing s with
  | nil => exact ⟨s.loadedValues, rfl⟩
  | cons item items ih =>
      simp only [loadFromDict, bind_apply]
      rcases loadItem_cases override allowUndeclared item.1 item.2 s with
        ⟨hload, -⟩ | ⟨-, ⟨e, hload, -⟩ | ⟨key, value, -, -, hload⟩⟩
      · rw [hload]
        exact ih s
      · rw [hload]
        exact ⟨s.loadedValues, rfl⟩
      · rw [hload]
        exact ih _

variable (lib) in
theorem reset_frame (s : State) :
    ∃ loaded, (reset lib s).2 = { s.emptied with loadedValues := loaded } := by
  rw [reset_state]
  cases s.fileItems lib with
  | none => exact ⟨_, rfl⟩
  | some items => exact loadFromDict_state true true items s.emptied

/-- The flags are the same, and a key that is declared keeps its declaration. -/
structure KeepsDeclared (s s' : State) : Prop where
  flags : s'.flagValues = s.flagValues
  declared : ∀ key d, s.declarations.lookup key = some d → s'.declarations.lookup key = some d

instance : Std.Refl KeepsDeclared where
  refl _ := ⟨rfl, fun _ _ h ↦ h⟩

instance : IsTrans State KeepsDeclared where
  trans _ _ _ h h' := ⟨h'.flags.trans h.flags, fun key d hd ↦ h'.declared key d (h.declared key d hd)⟩

theorem keepsDeclared_loadFromDict (override allowUndeclared : Bool) (items : List (Obj × Obj)) :
    Within KeepsDeclared (loadFromDict override allowUndeclared items) := by
  intro s
  obtain ⟨loaded, hs'⟩ := loadFromDict_state override allowUndeclared items s
  rw [hs']
  exact ⟨rfl, fun _ _ h ↦ h⟩

theorem keepsDeclared_declare (name : String) (description : Option String) (defaultValue : Option Obj) :
    Within KeepsDeclared (declare lib name description defaultValue) := by
  intro s
  unfold declare
  split
  · exact ⟨rfl, fun _ _ h ↦ h⟩
  · simp only [bind_apply, gets_apply, andThen]
    split
    · exact ⟨rfl, fun _ _ h ↦ h⟩
    · rename_i hnew
      refine ⟨rfl, fun key d hd ↦ ?_⟩
      have hne : key ≠ .str name := by
        rintro rfl
        exact hnew (by rw [hd]; rfl)
      exact (lookup_dictSet (.str name) key _ s.declarations.items).trans ((if_neg hne).trans hd)

theorem keepsDeclared_execute (op : { op : Op // op.keepsFlags }) :
    Within KeepsDeclared (op.val.execute lib) := by
  obtain ⟨op, hop⟩ := op
  cases op with
  | declare name description defaultValue => exact keepsDeclared_declare name description defaultValue
  | load override allowUndeclared kwargs =>
      exact keepsDeclared_loadFromDict override allowUndeclared _
  | loadFromDict override allowUndeclared dictionary =>
      exact keepsDeclared_loadFromDict override allowUndeclared dictionary
  | loadFlagValues flags => cases hop
  | reset =>
      intro s
      obtain ⟨loaded, hs'⟩ := reset_frame lib s
      rw [Op.execute, hs']
      exact ⟨rfl, fun _ _ h ↦ h⟩

/-! ## The restore -/

theorem within_thenContinue {β ε : Type} {R : State → State → Prop} [IsTrans State R]
    {next : Except ε β → Act State Raised α} {x : Act State ε β} (hx : Within R x)
    (hnext : ∀ r, Within R (next r)) : Within R (thenContinue next x) := fun s ↦
  IsTrans.trans _ _ _ (hx s) (hnext (x s).1 (x s).2)

theorem keepsDeclared_saveAndRestore (configValues : List (String × Obj))
    {func : Act State Raised α} (hfunc : Within KeepsDeclared func) :
    Within KeepsDeclared (saveAndRestore configValues func) := by
  have hload : Within KeepsDeclared (liftConf (load true false configValues)) :=
    keepsDeclared_loadFromDict true false _
  have hrestore (saved : Dict Obj Obj) : Within (ε := Raised) KeepsDeclared
      (Act.modify fun s ↦ { s with loadedValues := saved }) := .modify fun _ ↦ ⟨rfl, fun _ _ h ↦ h⟩
  exact .bind .gets fun saved ↦ .finally' (.bind hload fun _ ↦ hfunc) (hrestore saved)

theorem keepsDeclared_exec (body : Body α) : Within KeepsDeclared (body.exec lib) := by
  induction body with
  | done result => exact fun s ↦ Std.Refl.refl s
  | getItem item next ih => exact fun s ↦ ih _ s
  | call op next ih => exact within_thenContinue (keepsDeclared_execute op) ih
  | decorated configValues func next hfunc ih =>
      exact within_thenContinue (keepsDeclared_saveAndRestore configValues hfunc) ih

/-- The loaded values are those of the moment of the call. -/
theorem loadedValues_saveAndRestore (configValues : List (String × Obj)) (func : Act State Raised α)
    (s : State) : (saveAndRestore configValues func s).2.loadedValues = s.loadedValues := by
  refine (wp_same (P := fun s' : State ↦ s'.loadedValues = s.loadedValues)).mp ?_
  have hany {β : Type} (x : Act State Raised β) (s : State) :
      wp x (fun _ _ ↦ True) (fun _ _ ↦ True) s := (wp_same (P := fun _ ↦ True)).mpr trivial
  simp only [saveAndRestore, wp_bind, wp_gets, wp_finally, wp_modify]
  exact (hany _ s).mono (fun _ s₁ _ ↦ hany func s₁) fun _ _ h ↦ h

theorem getItem_of_keepsDeclared {s s' : State} (h : KeepsDeclared s s')
    (hloaded : s'.loadedValues = s.loadedValues) {key v : Obj} (hv : getItem s key = .ok v) :
    getItem s' key = .ok v := by
  unfold getItem at hv ⊢
  cases hd : s.declarations.lookup key with
  | none => simp [hd] at hv
  | some d =>
      rw [hd] at hv
      rw [h.declared key d hd, h.flags, hloaded]
      exact hv

/-- Every key that was readable has its value again, and no key is loaded that was
not. -/
structure Restored (s s' : State) : Prop where
  readable : ∀ key v, getItem s key = .ok v → getItem s' key = .ok v
  notLoaded : ∀ key, s.loadedValues.lookup key = none → s'.loadedValues.lookup key = none

/-- A call of a decorated function restores the configuration. -/
theorem save_and_restore_restores (lib : Library) (configValues : List (String × Obj)) (func : Body α)
    (s : State) : Restored s (saveAndRestore configValues (func.exec lib) s).2 := by
  have hkeeps : KeepsDeclared s (saveAndRestore configValues (func.exec lib) s).2 :=
    keepsDeclared_saveAndRestore configValues (keepsDeclared_exec func) s
  have hloaded := loadedValues_saveAndRestore configValues (func.exec lib) s
  constructor
  · intro key v hv
    exact getItem_of_keepsDeclared hkeeps hloaded hv
  · intro key hkey
    rw [hloaded, hkey]

/-! ## The reset -/

/-- `__init__`, which runs at import. -/
def atImport (lib : Library) : Stmt Unit := do
  loadFlagValues lib none
  reset lib

/-- `reset` does not raise, and leaves the loaded values of the import. -/
def ResetsToImport (lib : Library) (imported s : State) : Prop :=
  ∃ s', reset lib s = (.ok (), s') ∧
    ∀ key, s'.loadedValues.lookup key = imported.loadedValues.lookup key

/-- After an import with a file, the file has nothing left to read. -/
theorem configFile_step (op : Op) {s : State} {configFile : Option ConfigFile}
    (h : s.configFile = configFile.map fun file ↦ { file with rest := "" }) :
    (op.step lib s).configFile = configFile.map fun file ↦ { file with rest := "" } := by
  cases op with
  | declare name description defaultValue =>
      have hcases : (declare lib name description defaultValue s).2 = s ∨ _ :=
        declare_cases name description defaultValue s
      rcases hcases with hs' | hs' <;> rw [Op.step, Op.execute, hs', h]
  | load override allowUndeclared kwargs =>
      obtain ⟨loaded, hs'⟩ := loadFromDict_state override allowUndeclared
        (kwargs.map fun item ↦ (.str item.1, item.2)) s
      rw [Op.step, Op.execute, load, hs', h]
  | loadFromDict override allowUndeclared dictionary =>
      obtain ⟨loaded, hs'⟩ := loadFromDict_state override allowUndeclared dictionary s
      rw [Op.step, Op.execute, hs', h]
  | loadFlagValues flags =>
      obtain ⟨flagValues, hs'⟩ : ∃ flagValues, (Configuration.loadFlagValues lib flags s).2 = _ :=
        loadFlagValues_state flags s
      rw [Op.step, Op.execute, hs', h]
  | reset =>
      obtain ⟨loaded, hs'⟩ := reset_frame lib s
      rw [Op.step, Op.execute, hs', State.emptied, h]
      cases configFile <;> rfl

theorem configFile_run (ops : List Op) {s : State} {configFile : Option ConfigFile}
    (h : s.configFile = configFile.map fun file ↦ { file with rest := "" }) :
    (run lib ops s).configFile = configFile.map fun file ↦ { file with rest := "" } := by
  induction ops generalizing s with
  | nil => exact h
  | cons op ops ih => exact ih (configFile_step op h)

/-- Without a file nothing is loaded. -/
theorem reset_of_none {s : State} (h : s.configFile = none) :
    reset lib s = (.ok (), { s with loadedValues := ⟨[], List.nodup_nil⟩ }) := by
  simp [reset, andThen, h]

/-- The text of an empty file is no dict. -/
theorem reset_ne_ok {s s' : State} {file : ConfigFile} {x : Obj} (hok : reset lib s = (.ok (), s'))
    (hrest : file.rest = "") (hload : lib.safeLoad "" = some x) (hdict : lib.asDict x = none) :
    s.configFile ≠ some file := by
  intro h
  simp [reset, loadFromFile, andThen, h, hrest, hload, hdict] at hok

/-- Where the text of an empty file is no dict: after an import that did not raise,
and whatever operations, `reset` goes back to the values of the import exactly when
no `--config-file` was given. -/
theorem resetsToImport_iff (lib : Library) (x : Obj) (hload : lib.safeLoad "" = some x)
    (hdict : lib.asDict x = none) (configFile : Option ConfigFile) (configValue : List String)
    (imported : State) (himport : atImport lib (State.new configFile configValue) = (.ok (), imported))
    (ops : List Op) :
    ResetsToImport lib imported (run lib ops imported) ↔ configFile = none := by
  obtain ⟨_, s, hflags, hreset⟩ := bind_eq_ok_iff.mp himport
  obtain ⟨flagValues, hs⟩ : ∃ flagValues, (loadFlagValues lib none _).2 = _ :=
    loadFlagValues_state none (State.new configFile configValue)
  rw [hflags] at hs
  have hsfile : s.configFile = configFile := congrArg State.configFile hs
  have hfile : imported.configFile = configFile.map fun file ↦ { file with rest := "" } := by
    obtain ⟨loaded, hs'⟩ := reset_frame lib s
    rw [hreset] at hs'
    rw [← hsfile]
    exact congrArg State.configFile hs'
  have hrun : (run lib ops imported).configFile = _ := configFile_run ops hfile
  cases configFile with
  | none =>
      refine iff_of_true ⟨_, reset_of_none hrun, fun key ↦ ?_⟩ rfl
      rw [reset_of_none hsfile] at hreset
      rw [← (Prod.mk.inj hreset).2]
  | some file =>
      refine iff_of_false ?_ nofun
      rintro ⟨s', hok, -⟩
      exact reset_ne_ok hok rfl hload hdict hrun

/-- A library in which the text `{limit: 5}` is a dict and the empty text is not. -/
def limitYaml : Library where
  islower c := c.isLower
  safeLoad text := if text = "{limit: 5}" then some (.other 1) else some (.other 0)
  asDict x := if x = .other 1 then some [(.str "limit", .other 5)] else none

theorem resetsToImport_noFile :
    ∃ imported, atImport limitYaml (State.new none []) = (.ok (), imported) ∧
      ResetsToImport limitYaml imported
        (run limitYaml [.declare "limit" none none, .load true false [("limit", .other 7)]] imported) := by
  refine ⟨_, rfl, (resetsToImport_iff limitYaml (.other 0) rfl rfl none [] _ rfl _).mpr rfl⟩

/-- A file is loaded at import; the first `reset` after it raises. -/
theorem not_resetsToImport_file :
    ∃ imported, atImport limitYaml (State.new (some ⟨"station.yaml", "{limit: 5}"⟩) []) = (.ok (), imported) ∧
      ¬ResetsToImport limitYaml imported (run limitYaml [] imported) := by
  refine ⟨_, rfl, ?_⟩
  rintro ⟨s', hok, -⟩
  have hcontent : limitYaml.safeLoad "" = some (.other 0) := rfl
  have hconsumed : (⟨"station.yaml", ""⟩ : ConfigFile).rest = "" := rfl
  exact reset_ne_ok hok hconsumed hcontent rfl rfl

end OpenHtf.Configuration
