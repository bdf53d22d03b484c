import OpenHtf.Lib.Action
import OpenHtf.Lib.Dict

/-!
# The configuration

`configuration._Configuration`: the declarations, the values given by flags and
those that were loaded, and the operations that change and read them.
-/

set_option autoImplicit false

namespace OpenHtf.Configuration

/-! ## Keys, values and errors -/

/-- A key or a value: a string, a byte string, or any other object. -/
inductive Obj where
  | str (s : String)
  | bytes (b : List UInt8)
  | other (id : ℕ)
  deriving DecidableEq

inductive ConfError where
  | AttributeError (message : String)
  | ConfigurationInvalidError (message : String)
  | InvalidKeyError (message name : String)
  | KeyAlreadyDeclaredError (message name : String)
  | UndeclaredKeyError (message : String) (item : Obj)
  | UnsetKeyError (message : String) (item : Obj)
  | UnicodeDecodeError
  | ValueError (message : String)
  | YAMLError
  deriving DecidableEq

/-- `x.decode() if isinstance(x, bytes) else x`. -/
def Obj.decode : Obj → Except ConfError Obj
  | bytes b =>
    match String.fromUTF8? ⟨b.toArray⟩ with
    | some s => .ok (str s)
    | none => .error .UnicodeDecodeError
  | x => .ok x

/-- What is used of Python's `str` and of PyYAML: `str.islower` of a character,
`yaml.safe_load`, with `none` for a `YAMLError`, and the items of an object that
is a dict. -/
structure Library where
  islower : Char → Bool
  safeLoad : String → Option Obj
  asDict : Obj → Option (List (Obj × Obj))

/-! ## The state -/

/-- `default_value` is `none` when it is the sentinel `NOT_SET`. -/
structure Declaration where
  name : String
  description : Option String := none
  defaultValue : Option Obj := none
  deriving DecidableEq

def Declaration.hasDefault (d : Declaration) : Bool := d.defaultValue.isSome

/-- An open file: how it prints, and what the next `read` gives. -/
structure ConfigFile where
  name : String
  rest : String
  deriving DecidableEq

/-- `configFile` and `configValue` are the parsed flags. -/
structure State where
  declarations : Dict Obj Declaration := ⟨[], List.nodup_nil⟩
  flagValues : Dict Obj Obj := ⟨[], List.nodup_nil⟩
  loadedValues : Dict Obj Obj := ⟨[], List.nodup_nil⟩
  configFile : Option ConfigFile := none
  configValue : List String := []

abbrev Stmt := Act State ConfError

def liftExcept {α : Type} (r : Except ConfError α) : Stmt α := Act.ofExcept r

/-! ## Reading -/

def getItem (s : State) (item : Obj) : Except ConfError Obj :=
  match s.declarations.lookup item with
  | none => .error (.UndeclaredKeyError "Configuration key not declared" item)
  | some declaration =>
    match s.flagValues.lookup item with
    | some v => .ok v
    | none =>
      match s.loadedValues.lookup item with
      | some v => .ok v
      | none =>
        match declaration.defaultValue with
        | some v => .ok v
        | none => .error (.UnsetKeyError "Configuration value not set and has no default" item)

def contains (s : State) (name : Obj) : Bool :=
  match s.declarations.lookup name with
  | none => false
  | some declaration =>
    declaration.hasDefault || (s.loadedValues.lookup name).isSome || (s.flagValues.lookup name).isSome

/-- `_asdict`: the defaults, over them the loaded values, and over these the flag
values of declared keys. -/
def asDict (s : State) : Dict Obj Obj :=
  let retval := s.declarations.filterMap fun _ declaration ↦ declaration.defaultValue
  let retval := retval.update s.loadedValues.items
  retval.update (s.flagValues.filterMap fun key value ↦
    if (s.declarations.lookup key).isSome then some value else none).items

/-! ## Declaring and loading -/

variable (lib : Library)

def isValidKey (key : String) : Bool :=
  match key.toList with
  | [] => false
  | c :: _ => lib.islower c

def declare (name : String) (description : Option String) (defaultValue : Option Obj) : Stmt Unit := do
  if !isValidKey lib name then
    Act.raise (.InvalidKeyError "Invalid key name, must begin with a lowercase letter" name)
  else if ((← Act.gets (·.declarations)).lookup (.str name)).isSome then
    Act.raise (.KeyAlreadyDeclaredError "Configuration key already declared" name)
  else
    Act.modify fun s ↦
      { s with declarations := s.declarations.set (.str name) ⟨name, description, defaultValue⟩ }

/-- One round of the loop of `load_from_dict`; a key that is left out because it
is not declared is only logged. -/
def loadItem (override allowUndeclared : Bool) (key value : Obj) : Stmt Unit := do
  let s ← Act.gets id
  if (s.declarations.lookup key).isNone && !allowUndeclared then pure ()
  else if (s.loadedValues.lookup key).isSome && !override then pure ()
  else
    let key ← liftExcept key.decode
    let value ← liftExcept value.decode
    Act.modify fun s ↦ { s with loadedValues := s.loadedValues.set key value }

def loadFromDict (override allowUndeclared : Bool) : List (Obj × Obj) → Stmt Unit
  | [] => pure ()
  | (key, value) :: items => do
    loadItem override allowUndeclared key value
    loadFromDict override allowUndeclared items

def load (override allowUndeclared : Bool) (kwargs : List (String × Obj)) : Stmt Unit :=
  loadFromDict override allowUndeclared (kwargs.map fun item ↦ (.str item.1, item.2))

/-- `load_from_file`, of the file of the flag, which is read to its end. -/
def loadFromFile (file : ConfigFile) (override allowUndeclared : Bool) : Stmt Unit := do
  Act.modify fun s ↦ { s with configFile := some { file with rest := "" } }
  match lib.safeLoad file.rest with
  | none => Act.raise (.ConfigurationInvalidError s!"Failed to load from {file.name} as YAML")
  | some parsed =>
    match lib.asDict parsed with
    | none => Act.raise (.ConfigurationInvalidError "YAML parsed, but wrong type, should be dict")
    | some items => loadFromDict override allowUndeclared items

def reset : Stmt Unit := do
  Act.modify fun s ↦ { s with loadedValues := ⟨[], List.nodup_nil⟩ }
  match ← Act.gets (·.configFile) with
  | none => pure ()
  | some file => loadFromFile lib file true true

/-- `keyval.split('=', 1)`, unpacked into two. -/
def splitKeyval (keyval : String) : Except ConfError (String × String) :=
  match keyval.toList.span (· ≠ '=') with
  | (_, []) => .error (.ValueError "not enough values to unpack (expected 2, got 1)")
  | (k, _ :: v) => .ok (String.ofList k, String.ofList v)

def loadFlagValue (keyval : String) : Stmt Unit := do
  let (k, v) ← liftExcept (splitKeyval keyval)
  match lib.safeLoad v with
  | none => Act.raise .YAMLError
  | some v =>
    let v ← liftExcept v.decode
    Act.modify fun s ↦
      if (s.flagValues.lookup (.str k)).isSome then s
      else { s with flagValues := s.flagValues.set (.str k) v }

def loadFlagValueList : List String → Stmt Unit
  | [] => pure ()
  | keyval :: keyvals => do
    loadFlagValue lib keyval
    loadFlagValueList keyvals

/-- `load_flag_values`; without flags those of the command line are loaded. -/
def loadFlagValues (flags : Option (List String)) : Stmt Unit := do
  let configValue ← Act.gets (·.configValue)
  loadFlagValueList lib (flags.getD configValue)

/-! ## Runs -/

inductive Op where
  | declare (name : String) (description : Option String) (defaultValue : Option Obj)
  | load (override allowUndeclared : Bool) (kwargs : List (String × Obj))
  | loadFromDict (override allowUndeclared : Bool) (dictionary : List (Obj × Obj))
  | loadFlagValues (flags : Option (List String))
  | reset

def Op.execute : Op → Stmt Unit
  | declare name description defaultValue => Configuration.declare lib name description defaultValue
  | load override allowUndeclared kwargs => Configuration.load override allowUndeclared kwargs
  | loadFromDict override allowUndeclared dictionary =>
      Configuration.loadFromDict override allowUndeclared dictionary
  | loadFlagValues flags => Configuration.loadFlagValues lib flags
  | reset => Configuration.reset lib

/-- What raises leaves the state that it has reached. -/
def Op.step (op : Op) (s : State) : State := (op.execute lib s).2

def run : List Op → State → State
  | [], s => s
  | op :: ops, s => run ops (op.step lib s)

/-- The configuration that `__init__` begins with; it goes on with
`load_flag_values` and `reset`. -/
def State.new (configFile : Option ConfigFile) (configValue : List String) : State where
  configFile := configFile
  configValue := configValue

end OpenHtf.Configuration
