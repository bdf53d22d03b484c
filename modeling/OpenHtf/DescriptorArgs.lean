import OpenHtf.FormatString
import OpenHtf.Lib.Dict
import OpenHtf.Lib.ExceptMap
import OpenHtf.PhaseNode

/-!
# Arguments and plugs of a phase

`with_args`, `with_plugs` and `load_code_info` of `PhaseDescriptor`, with the methods of
its options and measurements that they call.  `attr_copy` makes a new object with the
fields of the old one, so the copies differ from the originals only in what is written.
-/

set_option autoImplicit false

namespace OpenHtf.DescriptorArgs

/-! ## What a phase is made of -/

structure ArgSpec where
  args : List String
  varkw : Option String

/-- What the interpreter tells of a phase function; a callable object need not have a
`__name__`, nor a signature that can be inspected. -/
structure PhaseFunc where
  id : ℕ
  name : Option String
  getfullargspec : Except PyExc ArgSpec
  doc : Option String
  source : String

structure CodeInfo where
  name : String
  docstring : Option String
  sourcecode : String
  deriving DecidableEq

def CodeInfo.uncaptured : CodeInfo := ⟨"", none, ""⟩

inductive PhaseNameCase where
  | KEEP | CAMEL
  deriving DecidableEq

/-- The options of a phase; `others` are those that the executor reads. -/
structure PhaseOptions (V : Type) where
  name : FormatTarget V := .none
  phaseNameCase : PhaseNameCase := .KEEP
  others : OpenHtf.PhaseOptions := {}

/-- `PhasePlug.cls`. -/
inductive PlugCls (V : Type) where
  | plug (cls : V)
  | placeholder (baseClass : V)

structure PhasePlug (V : Type) where
  name : String
  cls : PlugCls V
  updateKwargs : Bool := true

/-- A measurement as a phase declares it; `cached` is the dict kept of it. -/
structure Measurement (W : Type) where
  name : String
  docstring : Option String := none
  dimensions : ℕ := 0
  validators : List W := []
  conditionalValidators : List (DiagResult × W) := []
  allowFail : Bool := false
  outcome : MeasurementOutcome := .UNSET
  marginal : Bool := false
  cached : Option (List (String × String)) := none

/-- `extraKwargs` are the items of a dict. -/
structure PhaseDescriptor (V W : Type) where
  func : PhaseFunc
  options : PhaseOptions V := {}
  plugs : List (PhasePlug V) := []
  measurements : List (Measurement W) := []
  diagnosers : List Diagnoser := []
  extraKwargs : List (String × V) := []
  codeInfo : CodeInfo := .uncaptured

variable {V W : Type} (py : UserObjects V W)

/-! ## Options and measurements -/

/-- `PhaseOptions.format_strings`. -/
def PhaseOptions.formatStrings (kwargs : List (String × V)) (options : PhaseOptions V) :
    Except PyExc (PhaseOptions V) := do
  let name ← py.formatString kwargs options.name
  return { options with name }

/-- A validator without `with_args` is kept. -/
def validatorWithArgs (kwargs : List (String × V)) (v : W) : Except PyExc W :=
  match py.withArgs v with
  | some withArgs => withArgs kwargs
  | none => .ok v

/-- `_ConditionalValidator.with_args`. -/
def conditionalWithArgs (kwargs : List (String × V)) (cv : DiagResult × W) :
    Except PyExc (DiagResult × W) := do
  let validator ← validatorWithArgs py kwargs cv.2
  return (cv.1, validator)

/-- The name that a measurement may not have. -/
def reservedMeasurementName : String := "set_measurement_outcome_to_skipped"

/-- `Measurement.__attrs_pre_init__`. -/
def checkMeasurementName (name : String) : Except PyExc Unit :=
  if name = reservedMeasurementName then
    .error (.ofClass (.user "ReservedMeasurementNameError")
      s!"Measurement name {name} is reserved for internal use.")
  else .ok ()

def Measurement.withArgs (kwargs : List (String × V)) (m : Measurement W) :
    Except PyExc (Measurement W) := do
  let validators ← m.validators.mapM (validatorWithArgs py kwargs)
  let conditionalValidators ← m.conditionalValidators.mapM (conditionalWithArgs py kwargs)
  let name ← py.formatText kwargs m.name
  let docstring ← py.formatOptional kwargs m.docstring
  checkMeasurementName name
  return { m with name, docstring, validators, conditionalValidators, cached := none }

/-! ## Phases -/

/-- `func.__name__`. -/
def PhaseFunc.getName (func : PhaseFunc) : Except PyExc String :=
  match func.name with
  | some name => .ok name
  | none => .error (.ofClass .AttributeError "object has no attribute '__name__'")

/-- `CodeInfo.for_function`. -/
def CodeInfo.forFunction (func : PhaseFunc) : Except PyExc CodeInfo := do
  let name ← func.getName
  return ⟨name, func.doc, func.source⟩

namespace PhaseDescriptor

/-- The property `name`; an empty name counts as none. -/
def name (phase : PhaseDescriptor V W) : Except PyExc String := do
  let name ← match phase.options.name with
    | .text name => if name ≠ "" then .ok name else phase.func.getName
    | _ => phase.func.getName
  return if phase.options.phaseNameCase = .CAMEL then py.camelize name else name

/-- The arguments that the phase function takes. -/
def knownArguments (kwargs : List (String × V)) (argspec : ArgSpec) : List (String × V) :=
  kwargs.filter fun arg ↦ arg.1 ∈ argspec.args || argspec.varkw.isSome

def withArgs (kwargs : List (String × V)) (phase : PhaseDescriptor V W) :
    Except PyExc (PhaseDescriptor V W) := do
  let argspec ← phase.func.getfullargspec
  let options ← phase.options.formatStrings py kwargs
  let measurements ← phase.measurements.mapM (·.withArgs py kwargs)
  return { phase with
    options, measurements
    extraKwargs := dictUpdate (knownArguments kwargs argspec) phase.extraKwargs }

/-- Whether `subClass` may stand in for a plug. -/
def acceptSubstitute (subClass : V) : PlugCls V → Except PyExc Bool
  | .placeholder baseClass => py.issubclass subClass baseClass
  | .plug cls => if py.autoPlaceholder cls then py.issubclass subClass cls else .ok false

def invalidPlug (name phaseName : String) : PyExc :=
  .ofClass .InvalidPlugError
    s!"Could not find valid placeholder for substitute plug {name} required for phase {phaseName}"

/-- The loop over `subplugs`: `newPlugs` are the plugs substituted so far. -/
def substitutePlugs (phase : PhaseDescriptor V W) (plugsByName : List (String × PhasePlug V)) :
    List (String × V) → List (String × PhasePlug V) → Except PyExc (List (String × PhasePlug V))
  | [], newPlugs => .ok newPlugs
  | (name, subClass) :: subplugs, newPlugs =>
      match plugsByName.lookup name with
      | none => substitutePlugs phase plugsByName subplugs newPlugs
      | some original => do
          if ← acceptSubstitute py subClass original.cls then
            substitutePlugs phase plugsByName subplugs
              (dictSet name { original with cls := .plug subClass } newPlugs)
          else
            throw (invalidPlug name (← phase.name py))

/-- `\x7bplug.name: plug for plug in self.plugs\x7d`. -/
def plugsByName (phase : PhaseDescriptor V W) : List (String × PhasePlug V) :=
  phase.plugs.foldl (fun plugs plug ↦ dictSet plug.name plug plugs) []

def withPlugs (subplugs : List (String × V)) (phase : PhaseDescriptor V W) :
    Except PyExc (PhaseDescriptor V W) := do
  let newPlugs ← phase.substitutePlugs py phase.plugsByName subplugs []
  if newPlugs.isEmpty then return phase
  let options ← phase.options.formatStrings py subplugs
  let measurements ← phase.measurements.mapM (·.withArgs py subplugs)
  return { phase with
    plugs := (dictUpdate newPlugs phase.plugsByName).map Prod.snd
    options, measurements }

def loadCodeInfo (phase : PhaseDescriptor V W) : Except PyExc (PhaseDescriptor V W) := do
  let codeInfo ← CodeInfo.forFunction phase.func
  return { phase with codeInfo }

/-! ### What the methods leave alone -/

variable {py} {kwargs subplugs : List (String × V)} {phase phase' : PhaseDescriptor V W}

/-- Arguments reach the name, the measurements and the keyword arguments of a phase. -/
theorem withArgs_frame (h : phase.withArgs py kwargs = .ok phase') :
    ∃ options measurements extraKwargs,
      phase' = { phase with options, measurements, extraKwargs } ∧
        options.phaseNameCase = phase.options.phaseNameCase ∧
        options.others = phase.options.others ∧
        List.Forall₂ (Returned (·.withArgs py kwargs)) phase.measurements measurements := by
  obtain ⟨argspec, -, h⟩ := Except.bind_eq_ok_iff.mp h
  obtain ⟨options, hoptions, h⟩ := Except.bind_eq_ok_iff.mp h
  obtain ⟨measurements, hmeasurements, h⟩ := Except.bind_eq_ok_iff.mp h
  obtain ⟨name, -, hname⟩ := Except.bind_eq_ok_iff.mp hoptions
  obtain rfl := Except.ok.inj hname
  exact ⟨_, measurements, _, (Except.ok.inj h).symm, rfl, rfl, mapM_eq_ok_iff.mp hmeasurements⟩

theorem substitutePlugs_of_unknown {plugs newPlugs : List (String × PhasePlug V)}
    (h : ∀ sub ∈ subplugs, plugs.lookup sub.1 = none) :
    phase.substitutePlugs py plugs subplugs newPlugs = .ok newPlugs := by
  induction subplugs with
  | nil => rfl
  | cons sub subplugs ih =>
      rw [substitutePlugs, h sub List.mem_cons_self]
      apply ih
      intro sub' hsub'
      exact h sub' (List.mem_cons_of_mem _ hsub')

/-- Unknown plug names are ignored. -/
theorem withPlugs_of_unknown (h : ∀ sub ∈ subplugs, phase.plugsByName.lookup sub.1 = none) :
    phase.withPlugs py subplugs = .ok phase := by
  rw [withPlugs, substitutePlugs_of_unknown h]
  rfl

/-- Plugs reach the plugs, the name and the measurements of a phase. -/
theorem withPlugs_frame (h : phase.withPlugs py subplugs = .ok phase') :
    ∃ options plugs measurements, phase' = { phase with options, plugs, measurements } ∧
      options.phaseNameCase = phase.options.phaseNameCase ∧
      options.others = phase.options.others := by
  obtain ⟨newPlugs, -, h⟩ := Except.bind_eq_ok_iff.mp h
  split at h
  · exact ⟨_, _, _, (Except.ok.inj h).symm, rfl, rfl⟩
  · obtain ⟨options, hoptions, h⟩ := Except.bind_eq_ok_iff.mp h
    obtain ⟨measurements, -, h⟩ := Except.bind_eq_ok_iff.mp h
    obtain ⟨name, -, hname⟩ := Except.bind_eq_ok_iff.mp hoptions
    obtain rfl := Except.ok.inj hname
    exact ⟨_, _, measurements, (Except.ok.inj h).symm, rfl, rfl⟩

end PhaseDescriptor

end OpenHtf.DescriptorArgs
