import OpenHtf.Lib.Probing
import OpenHtf.MultidimAttachment
import OpenHtf.UniqueNames

/-!
# The parameters of a test run

`test_runs_converter`: measurements and attachments become parameters of a test
run, under names that get underscores until they are not used.  Coordinates are
given by what `str` makes of them.
-/

set_option autoImplicit false

namespace OpenHtf.TestRuns

open UniqueNames (Name sortedItems multidim)
open Multidim (UnitDescriptor Dimension)

/-! ## Records -/

/-- A value is written as a number if it is one, and else as its text. -/
inductive Value where
  | number (x : ℚ)
  | other (text : String)
  deriving DecidableEq

/-- `MeasuredValue` and `DimensionedMeasuredValue`. -/
inductive MeasuredValue where
  | value (v : Option Value)
  | dimensioned (valueDict : List (List Name × Value))

def MeasuredValue.isValueSet : MeasuredValue → Bool
  | value v => v.isSome
  | dimensioned valueDict => !valueDict.isEmpty

def MeasuredValue.isDimensioned : MeasuredValue → Bool
  | value _ => false
  | dimensioned _ => true

inductive ValidatorKind where
  | range (minimum maximum : Option ℚ)
  | regex (regex : String)
  | other

structure Validator where
  kind : ValidatorKind
  text : String

/-- The measured value has coordinates exactly if there are dimensions. -/
structure Measurement where
  docstring : Option String := none
  units : Option UnitDescriptor := none
  dimensions : Option (List Dimension) := none
  measuredValue : MeasuredValue
  outcome : MeasurementOutcome
  marginal : Bool := false
  validators : List Validator := []
  shaped : measuredValue.isDimensioned = !(dimensions.getD []).isEmpty := by rfl

structure Attachment (α : Type) where
  data : α
  mimetype : String

structure Phase (α : Type) where
  attachments : Dict Name (Attachment α)
  measurements : Dict Name Measurement

/-! ## Test runs -/

inductive Status where
  | PASS | FAIL | ERROR | MARGINAL_PASS
  deriving DecidableEq

inductive InformationTag where
  | TEXT_UTF8 | BINARY | MULTIDIM_JSON | JPG | PNG | WAV | TIFF | MP4
  deriving DecidableEq

/-- What a description starts with. -/
inductive DescriptionHead where
  | empty
  | docstring (text : String)
  | mangled (name : Name) (suffixes : List (Option String))

structure Description where
  head : DescriptionHead := .empty
  validators : List String := []

structure TestParameter where
  name : Name
  status : Option Status := none
  description : Description := {}
  numericValue : Option ℚ := none
  numericMinimum : Option ℚ := none
  numericMaximum : Option ℚ := none
  textValue : Option String := none
  expectedText : Option String := none
  unitCode : Option ℕ := none
  customUnitCode : Option String := none
  customUnitSuffix : Option String := none
  associatedAttachment : Option Name := none

/-- The data of an information parameter: the JSON of the record, an attachment
or the JSON of a measurement. -/
inductive Payload (α : Type) where
  | record
  | attachment (data : α)
  | measurement (outcome : Status) (name : Name) (dimensions : List (Option String × Option String))
      (value : Option (List (List Name × Value)))

structure InformationParameter (α : Type) where
  name : Name
  value : Payload α
  type : InformationTag

/-- The details are the text of a number. -/
structure FailureCode where
  code : Name
  details : Option ℚ := none

structure TestRun (α : Type) where
  testParameters : List TestParameter := []
  infoParameters : List (InformationParameter α) := []
  failureCodes : List FailureCode := []

variable {α : Type}

namespace TestRun

def addTestParameter (param : TestParameter) (t : TestRun α) : TestRun α :=
  { t with testParameters := t.testParameters ++ [param] }

def addInfoParameter (param : InformationParameter α) (t : TestRun α) : TestRun α :=
  { t with infoParameters := t.infoParameters ++ [param] }

/-- A failing parameter is listed. -/
def addFailure (param : TestParameter) (details : Option ℚ) (t : TestRun α) : TestRun α :=
  if param.status = some .FAIL then { t with failureCodes := t.failureCodes ++ [⟨param.name, details⟩] }
  else t

def names (t : TestRun α) : List Name := t.testParameters.map TestParameter.name

end TestRun

/-! ## The conversion -/

/-- `MIMETYPE_MAP`. -/
def mimetypeMap : String → Option InformationTag
  | "image/jpeg" => some .JPG
  | "image/png" => some .PNG
  | "audio/x-wav" => some .WAV
  | "text/plain" => some .TEXT_UTF8
  | "image/tiff" => some .TIFF
  | "video/mp4" => some .MP4
  | _ => none

def MAX_PARAMS_PER_MEASUREMENT : ℕ := 100

/-- `name += '_'`. -/
def underscore : Probing Name where
  next name := name ++ ['_']
  size := List.length
  size_lt name := by simp
  injective := List.append_left_injective ['_']

structure Conversion (α : Type) where
  testrun : TestRun α
  usedParameterNames : Finset Name
  mangledParameters : Dict Name TestParameter

/-- `_ensure_unique_parameter_name`. -/
def ensureUniqueParameterName (name : Name) (usedParameterNames : Finset Name) : Name × Finset Name :=
  let name := underscore.firstFree usedParameterNames name
  (name, insert name usedParameterNames)

/-- A text that is there and not empty. -/
def nonempty (text : Option String) : Option String := text.filter (· ≠ "")

section Units

-- `UOM_CODE_MAP.get`
variable (uomCodeMap : Option String → Option ℕ)

def setUnits (units : Option UnitDescriptor) (param : TestParameter) : TestParameter :=
  match units with
  | none => param
  | some units =>
    match (uomCodeMap units.code).filter (· ≠ 0) with
    | some unitCode => { param with unitCode := some unitCode }
    | none => { param with
        customUnitCode := nonempty units.code
        customUnitSuffix := nonempty units.suffix }

def setValue (value : Option Value) (param : TestParameter) : TestParameter :=
  match value with
  | some (.number x) => { param with numericValue := some x }
  | some (.other text) => { param with textValue := some text }
  | none => { param with textValue := some "None" }

/-- A validator is only told in the description. -/
def describeValidator (param : TestParameter) (validator : Validator) : TestParameter :=
  { param with description := { param.description with
      validators := param.description.validators ++ [validator.text] } }

def addValidator (param : TestParameter) (validator : Validator) : TestParameter :=
  match validator.kind with
  | .range minimum maximum => { param with
      numericMinimum := minimum <|> param.numericMinimum
      numericMaximum := maximum <|> param.numericMaximum }
  | .regex regex => { param with expectedText := some regex }
  | .other => describeValidator param validator

/-- A name like `'myparameter_Xsec_Ynm_ZHz'`. -/
def mangledName (name : Name) (coord : List Name) (dimensions : List Dimension) : Name :=
  List.intercalate ['_']
    (name :: List.zipWith (fun value dim ↦ value ++ (dim.suffix.getD "").toList) coord dimensions)

def mangledParameter (name mangledName : Name) (val : Value) (m : Measurement) (dimensions : List Dimension)
    (attachmentName : Name) : TestParameter :=
  setUnits uomCodeMap m.units <| m.validators.foldl describeValidator <| setValue (some val) {
    name := mangledName
    associatedAttachment := some attachmentName
    description := { head := .mangled name (dimensions.map Dimension.suffix) } }

/-- `_mangle_measurement`. -/
def mangleMeasurement (name : Name) (valueDict : List (List Name × Value)) (m : Measurement)
    (dimensions : List Dimension) (mangledParameters : Dict Name TestParameter) (attachmentName : Name) :
    Dict Name TestParameter :=
  (valueDict.take MAX_PARAMS_PER_MEASUREMENT).foldl (fun mangledParameters item ↦
    let mangled := underscore.firstFree mangledParameters.keys.toFinset (mangledName name item.1 dimensions)
    mangledParameters.set mangled
      (mangledParameter uomCodeMap name mangled item.2 m dimensions attachmentName)) mangledParameters

/-- The body of the loop in `_extract_attachments`. -/
def extractAttachment (s : Conversion α) (item : Name × Attachment α) : Conversion α :=
  let (name, used) := ensureUniqueParameterName item.1 s.usedParameterNames
  { s with
    usedParameterNames := used
    testrun := s.testrun.addInfoParameter {
      name := name
      value := .attachment item.2.data
      type := (mimetypeMap item.2.mimetype).getD .BINARY } }

/-- The body of the loop over the measurements in `_extract_parameters`.  It raises an
AttributeError if a measurement with an empty tuple of dimensions has to be mangled:
then there is no `value_dict`. -/
def extractParameter (s : Conversion α) (item : Name × Measurement) : Option (Conversion α) :=
  let (name, m) := item
  let (trName, used) := ensureUniqueParameterName name s.usedParameterNames
  let param : TestParameter := setUnits uomCodeMap m.units {
    name := trName
    description := { head := (nonempty m.docstring).elim .empty .docstring } }
  if !m.marginal && m.outcome ≠ .PASS && !m.measuredValue.isValueSet then
    some { s with
      usedParameterNames := used
      testrun := s.testrun.addTestParameter { param with status := some .ERROR } }
  else
    let status : Status :=
      if m.marginal then .MARGINAL_PASS else if m.outcome = .PASS then .PASS else .FAIL
    let param := { param with status := some (if m.measuredValue.isValueSet then status else .ERROR) }
    match m.dimensions, m.measuredValue with
    | none, .value value =>
      let param := m.validators.foldl addValidator (setValue value param)
      some { s with
        usedParameterNames := used
        testrun := (s.testrun.addTestParameter param).addFailure param (some (param.numericValue.getD 0)) }
    | some dimensions, .dimensioned valueDict =>
      let attachment : InformationParameter α := {
        name := multidim name
        value := .measurement (if m.measuredValue.isValueSet then status else .ERROR) name
          (dimensions.map fun d ↦ (d.suffix, d.code)) (if valueDict.isEmpty then none else some valueDict)
        type := .MULTIDIM_JSON }
      some {
        usedParameterNames := used
        testrun := ((s.testrun.addTestParameter param).addInfoParameter attachment).addFailure param none
        mangledParameters := mangleMeasurement uomCodeMap name valueDict m dimensions s.mangledParameters
          attachment.name }
    | _, _ => none

def extractPhase (s : Conversion α) (phase : Phase α) : Option (Conversion α) :=
  (sortedItems phase.measurements).foldlM (extractParameter uomCodeMap)
    ((sortedItems phase.attachments).foldl extractAttachment s)

/-- `_add_mangled_parameters`: a name in use is logged, and used again. -/
def addMangledParameters (s : Conversion α) : Conversion α :=
  (sortedItems s.mangledParameters).foldl (fun s item ↦ { s with
    usedParameterNames := (ensureUniqueParameterName item.1 s.usedParameterNames).2
    testrun := s.testrun.addTestParameter item.2 }) s

/-- `'OpenHTF_record.json'`. -/
def recordName : Name := "OpenHTF_record.json".toList

/-- The record itself is attached first. -/
def Conversion.start : Conversion α where
  testrun := { infoParameters := [⟨recordName, .record, .TEXT_UTF8⟩] }
  usedParameterNames := {recordName}
  mangledParameters := ⟨[], List.nodup_nil⟩

/-- What `test_run_from_test_record` makes of the phases of a record. -/
def testRunFromTestRecord (phases : List (Phase α)) : Option (TestRun α) := do
  let s ← phases.foldlM (extractPhase uomCodeMap) Conversion.start
  return (addMangledParameters s).testrun

end Units

/-! ## The names that are asked for -/

/-- The names that the loops over a phase ask for, and whether a measurement does. -/
def Phase.asked (phase : Phase α) : List (Bool × Name) :=
  (sortedItems phase.attachments).map (fun item ↦ (false, item.1)) ++
    (sortedItems phase.measurements).map fun item ↦ (true, item.1)

def asked (phases : List (Phase α)) : List (Bool × Name) := (false, recordName) :: phases.flatMap Phase.asked

/-- The names that the values of a measurement ask for. -/
def Measurement.mangledNames (name : Name) (m : Measurement) : List Name :=
  match m.dimensions, m.measuredValue with
  | some dimensions, .dimensioned valueDict =>
    (valueDict.take MAX_PARAMS_PER_MEASUREMENT).map fun item ↦ mangledName name item.1 dimensions
  | _, _ => []

def Phase.mangledNames (phase : Phase α) : List Name :=
  (sortedItems phase.measurements).flatMap fun item ↦ item.2.mangledNames item.1

/-- A measurement gets this name: when it asks for its own, this one is taken for the first time. -/
def GivenToMeasurement (asked : List (Bool × Name)) (y : Name) : Prop :=
  ∃ before x, before ++ [(true, x)] <+: asked ∧
    underscore.Crowded (before.map Prod.snd ++ [x]) y ∧ ¬underscore.Crowded (before.map Prod.snd) y

theorem not_givenToMeasurement_nil (y : Name) : ¬GivenToMeasurement [] y := by
  rintro ⟨before, x, hprefix, -⟩
  simpa using List.prefix_nil.mp hprefix

theorem givenToMeasurement_concat {asked : List (Bool × Name)} {flag : Bool} {x y : Name} :
    GivenToMeasurement (asked ++ [(flag, x)]) y ↔ GivenToMeasurement asked y ∨ (flag = true ∧
      underscore.firstFree (underscore.place ∅ (asked.map Prod.snd)).toFinset x = y) := by
  rw [Probing.firstFree_place_eq_iff]
  constructor
  · rintro ⟨before, x', hprefix, htaken⟩
    rcases List.prefix_concat_iff.mp hprefix with heq | hprefix
    · obtain ⟨rfl, hlast⟩ := List.append_inj' heq rfl
      obtain ⟨rfl, rfl⟩ := Prod.mk.inj (List.singleton_inj.mp hlast)
      exact .inr ⟨rfl, htaken⟩
    · exact .inl ⟨before, x', hprefix, htaken⟩
  · rintro (⟨before, x', hprefix, htaken⟩ | ⟨rfl, htaken⟩)
    · exact ⟨before, x', hprefix.trans (List.prefix_append _ _), htaken⟩
    · exact ⟨asked, x, List.prefix_rfl, htaken⟩

/-! ## The extraction -/

/-- What has been given out after these names were asked for. -/
structure Extracted (asked : List (Bool × Name)) (mangled : List Name) (s : Conversion α) : Prop where
  used : s.usedParameterNames = (underscore.place ∅ (asked.map Prod.snd)).toFinset
  names : ∀ y, y ∈ s.testrun.names ↔ GivenToMeasurement asked y
  nodup : s.testrun.names.Nodup
  namesUsed : ∀ y ∈ s.testrun.names, y ∈ s.usedParameterNames
  keys : s.mangledParameters.keys = underscore.place ∅ mangled
  mangledNames : ∀ item ∈ s.mangledParameters.items, item.2.name = item.1

section Steps

variable {uomCodeMap : Option String → Option ℕ} {asked : List (Bool × Name)} {mangled : List Name}
  {s s' : Conversion α}

@[simp] theorem names_addInfoParameter (param : InformationParameter α) (t : TestRun α) :
    (t.addInfoParameter param).names = t.names := rfl

@[simp] theorem names_addFailure (param : TestParameter) (details : Option ℚ) (t : TestRun α) :
    (t.addFailure param details).names = t.names := by
  unfold TestRun.addFailure
  split <;> rfl

@[simp] theorem names_addTestParameter (param : TestParameter) (t : TestRun α) :
    (t.addTestParameter param).names = t.names ++ [param.name] := List.map_append

/-- The set of names in use after one more was asked for. -/
theorem Extracted.used_concat (h : Extracted asked mangled s) (flag : Bool) (x : Name) :
    (ensureUniqueParameterName x s.usedParameterNames).2 =
      (underscore.place ∅ ((asked ++ [(flag, x)]).map Prod.snd)).toFinset := by
  rw [List.map_append, List.map_singleton, Probing.place_concat, List.toFinset_append, ← h.used,
    Finset.union_comm]
  rfl

theorem Extracted.attachment (h : Extracted asked mangled s) (item : Name × Attachment α) :
    Extracted (asked ++ [(false, item.1)]) mangled (extractAttachment s item) where
  used := h.used_concat false item.1
  names y := by
    rw [givenToMeasurement_concat, ← h.names y]
    simp [extractAttachment]
  nodup := h.nodup
  namesUsed y hy := Finset.mem_insert_of_mem (h.namesUsed y hy)
  keys := h.keys
  mangledNames := h.mangledNames

/-- A measurement asks for its name, and its values ask for theirs. -/
theorem Extracted.measurement (h : Extracted asked mangled s) {x : Name} {more : List Name}
    (hused : s'.usedParameterNames = (ensureUniqueParameterName x s.usedParameterNames).2)
    (hnames : s'.testrun.names = s.testrun.names ++ [(ensureUniqueParameterName x s.usedParameterNames).1])
    (hkeys : s'.mangledParameters.keys = underscore.place ∅ (mangled ++ more))
    (hmangled : ∀ item ∈ s'.mangledParameters.items, item.2.name = item.1) :
    Extracted (asked ++ [(true, x)]) (mangled ++ more) s' where
  used := hused.trans (h.used_concat true x)
  names y := by
    rw [givenToMeasurement_concat, hnames, List.mem_append, h.names y, List.mem_singleton, ← h.used]
    exact or_congr_right ⟨fun heq ↦ ⟨rfl, heq.symm⟩, fun heq ↦ heq.2.symm⟩
  nodup := by
    rw [hnames]
    refine List.Nodup.append h.nodup (List.nodup_singleton _) ?_
    rw [List.disjoint_singleton]
    exact fun hmem ↦ Probing.firstFree_not_mem _ x (h.namesUsed _ hmem)
  namesUsed y hy := by
    rw [hnames, List.mem_append, List.mem_singleton] at hy
    rw [hused]
    rcases hy with hy | rfl
    · exact Finset.mem_insert_of_mem (h.namesUsed y hy)
    · exact Finset.mem_insert_self _ _
  keys := hkeys
  mangledNames := hmangled

theorem name_setUnits (units : Option UnitDescriptor) (param : TestParameter) :
    (setUnits uomCodeMap units param).name = param.name := by
  unfold setUnits
  split
  · rfl
  · split <;> rfl

theorem name_setValue (value : Option Value) (param : TestParameter) :
    (setValue value param).name = param.name := by
  unfold setValue
  split <;> rfl

theorem name_foldl {f : TestParameter → Validator → TestParameter}
    (hf : ∀ param validator, (f param validator).name = param.name) (validators : List Validator)
    (param : TestParameter) : (validators.foldl f param).name = param.name := by
  induction validators generalizing param with
  | nil => rfl
  | cons validator validators ih => exact (ih _).trans (hf param validator)

theorem name_addValidator (param : TestParameter) (validator : Validator) :
    (addValidator param validator).name = param.name := by
  unfold addValidator
  split <;> rfl

theorem name_mangledParameter (name mangledName : Name) (val : Value) (m : Measurement)
    (dimensions : List Dimension) (attachmentName : Name) :
    (mangledParameter uomCodeMap name mangledName val m dimensions attachmentName).name = mangledName := by
  rw [mangledParameter, name_setUnits, name_foldl (f := describeValidator) fun _ _ ↦ rfl, name_setValue]

variable (uomCodeMap) in
/-- The values of a measurement get the first free names. -/
theorem mangleMeasurement_spec (name : Name) (valueDict : List (List Name × Value)) (m : Measurement)
    (dimensions : List Dimension) (attachmentName : Name) {d : Dict Name TestParameter}
    (hkeys : d.keys = underscore.place ∅ mangled) (hnames : ∀ item ∈ d.items, item.2.name = item.1) :
    let d' := mangleMeasurement uomCodeMap name valueDict m dimensions d attachmentName
    d'.keys = underscore.place ∅ (mangled ++ (valueDict.take MAX_PARAMS_PER_MEASUREMENT).map
      fun item ↦ mangledName name item.1 dimensions) ∧ ∀ item ∈ d'.items, item.2.name = item.1 := by
  unfold mangleMeasurement
  induction valueDict.take MAX_PARAMS_PER_MEASUREMENT generalizing d mangled with
  | nil =>
      rw [List.map_nil, List.append_nil]
      exact ⟨hkeys, hnames⟩
  | cons item items ih =>
      rw [List.map_cons, List.append_cons]
      have hfree := Probing.firstFree_not_mem (p := underscore) d.keys.toFinset
        (mangledName name item.1 dimensions)
      rw [List.mem_toFinset] at hfree
      refine ih ?_ ?_
      · rw [Dict.keys, Dict.items_set_of_not_mem hfree, List.map_append, Probing.place_concat, ← hkeys]
        rfl
      · intro item' hitem'
        rw [Dict.items_set_of_not_mem hfree, List.mem_append, List.mem_singleton] at hitem'
        rcases hitem' with hitem' | rfl
        · exact hnames item' hitem'
        · exact name_mangledParameter _ _ _ _ _ _

theorem mangledNames_of_not_isValueSet {m : Measurement} (h : m.measuredValue.isValueSet = false) (name : Name) :
    m.mangledNames name = [] := by
  unfold Measurement.mangledNames
  split
  · rename_i dimensions valueDict _ hvalue
    rw [hvalue] at h
    obtain rfl : valueDict = [] := by simpa [MeasuredValue.isValueSet] using h
    rfl
  · rfl

theorem Extracted.parameter (h : Extracted asked mangled s) {item : Name × Measurement}
    (hstep : extractParameter uomCodeMap s item = some s') :
    Extracted (asked ++ [(true, item.1)]) (mangled ++ item.2.mangledNames item.1) s' := by
  obtain ⟨name, m⟩ := item
  unfold extractParameter at hstep
  dsimp only at hstep
  split at hstep
  · rename_i hunset
    obtain rfl := Option.some.inj hstep
    have hnone : m.measuredValue.isValueSet = false := by
      simp only [Bool.and_eq_true, Bool.not_eq_true'] at hunset
      exact hunset.2
    refine h.measurement rfl (by simp [name_setUnits]) ?_ h.mangledNames
    rw [mangledNames_of_not_isValueSet hnone, List.append_nil]
    exact h.keys
  · split at hstep
    · rename_i hdimensions _
      obtain rfl := Option.some.inj hstep
      refine h.measurement rfl ?_ ?_ h.mangledNames
      · simp [name_foldl name_addValidator, name_setValue, name_setUnits]
      · simpa [Measurement.mangledNames, hdimensions] using h.keys
    · rename_i dimensions valueDict hdimensions hvalue
      obtain rfl := Option.some.inj hstep
      obtain ⟨hkeys, hnames⟩ := mangleMeasurement_spec uomCodeMap name valueDict m dimensions
        (multidim name) h.keys h.mangledNames
      refine h.measurement rfl (by simp [name_setUnits]) ?_ hnames
      rw [hkeys, Measurement.mangledNames, hdimensions, hvalue]
    · cases hstep

/-! ## Runs of the loops -/

theorem Extracted.attachments (h : Extracted asked mangled s) (items : List (Name × Attachment α)) :
    Extracted (asked ++ items.map fun item ↦ (false, item.1)) mangled (items.foldl extractAttachment s) := by
  induction items generalizing asked s with
  | nil => simpa using h
  | cons item items ih =>
      rw [List.map_cons, List.append_cons]
      exact ih (h.attachment item)

theorem Extracted.parameters (h : Extracted asked mangled s) {items : List (Name × Measurement)}
    (hrun : items.foldlM (extractParameter uomCodeMap) s = some s') :
    Extracted (asked ++ items.map fun item ↦ (true, item.1))
      (mangled ++ items.flatMap fun item ↦ item.2.mangledNames item.1) s' := by
  induction items generalizing asked mangled s with
  | nil =>
      obtain rfl := Option.some.inj hrun
      simpa using h
  | cons item items ih =>
      rw [List.foldlM_cons, Option.bind_eq_bind, Option.bind_eq_some_iff] at hrun
      obtain ⟨s₁, hstep, hrest⟩ := hrun
      rw [List.map_cons, List.append_cons, List.flatMap_cons, ← List.append_assoc]
      exact ih (h.parameter hstep) hrest

theorem Extracted.phases (h : Extracted asked mangled s) {phases : List (Phase α)}
    (hrun : phases.foldlM (extractPhase uomCodeMap) s = some s') :
    Extracted (asked ++ phases.flatMap Phase.asked) (mangled ++ phases.flatMap Phase.mangledNames) s' := by
  induction phases generalizing asked mangled s with
  | nil =>
      obtain rfl := Option.some.inj hrun
      simpa using h
  | cons phase phases ih =>
      rw [List.foldlM_cons, Option.bind_eq_bind, Option.bind_eq_some_iff] at hrun
      obtain ⟨s₁, hstep, hrest⟩ := hrun
      have hphase := (h.attachments (sortedItems phase.attachments)).parameters hstep
      rw [List.append_assoc] at hphase
      rw [List.flatMap_cons, List.flatMap_cons, ← List.append_assoc, ← List.append_assoc]
      exact ih hphase hrest

/-- The mangled parameters are added under the names that they have. -/
theorem names_addMangledParameters (s : Conversion α) :
    (addMangledParameters s).testrun.names =
      s.testrun.names ++ (sortedItems s.mangledParameters).map fun item ↦ item.2.name := by
  unfold addMangledParameters
  induction sortedItems s.mangledParameters generalizing s with
  | nil => exact (List.append_nil _).symm
  | cons item items ih =>
      rw [List.foldl_cons, ih, List.map_cons, List.append_cons]
      exact congrArg (· ++ _) (names_addTestParameter item.2 s.testrun)

theorem givenToMeasurement_singleton (x y : Name) : ¬GivenToMeasurement [(false, x)] y := by
  rw [← List.nil_append [(false, x)], givenToMeasurement_concat]
  rintro (hnil | ⟨hflag, -⟩)
  · exact not_givenToMeasurement_nil y hnil
  · cases hflag

theorem extracted_start : Extracted [(false, recordName)] [] (Conversion.start : Conversion α) where
  used := by
    rw [List.map_singleton, Probing.place, Probing.firstFree_of_not_mem (Finset.notMem_empty _)]
    rfl
  names y := iff_of_false List.not_mem_nil (givenToMeasurement_singleton recordName y)
  nodup := List.nodup_nil
  namesUsed _ hy := absurd hy List.not_mem_nil
  keys := rfl
  mangledNames _ hitem := absurd hitem List.not_mem_nil

end Steps

/-! ## Unique names -/

/-- No name is both that of a mangled parameter and that of a measurement. -/
def NoMangledNameGiven (phases : List (Phase α)) : Prop :=
  ∀ y, underscore.Crowded (phases.flatMap Phase.mangledNames) y → ¬GivenToMeasurement (asked phases) y

theorem Extracted.names_iff {asked : List (Bool × Name)} {mangled : List Name} {s : Conversion α}
    (h : Extracted asked mangled s) :
    (addMangledParameters s).testrun.names.Nodup ↔
      ∀ y, underscore.Crowded mangled y → ¬GivenToMeasurement asked y := by
  have hperm := UniqueNames.perm_sortedItems s.mangledParameters
  have hkeys : (sortedItems s.mangledParameters).map (fun item ↦ item.2.name) =
      (sortedItems s.mangledParameters).map Prod.fst :=
    List.map_congr_left fun item hitem ↦ h.mangledNames item (hperm.mem_iff.mp hitem)
  have hmem : ∀ y, y ∈ (sortedItems s.mangledParameters).map Prod.fst ↔ underscore.Crowded mangled y := by
    intro y
    rw [(UniqueNames.perm_sortedKeys _).mem_iff, ← Probing.mem_place_iff_crowded, ← h.keys]
  rw [names_addMangledParameters, hkeys, List.nodup_append']
  constructor
  · rintro ⟨-, -, hdisjoint⟩ y hy hgiven
    exact hdisjoint ((h.names y).mpr hgiven) ((hmem y).mpr hy)
  · exact fun hfree ↦ ⟨h.nodup, UniqueNames.nodup_sortedKeys _,
      fun y hreal hy ↦ hfree y ((hmem y).mp hy) ((h.names y).mp hreal)⟩

/-! ## Records that are converted -/

/-- The measurement does not have to be mangled with an empty tuple of dimensions. -/
def Measurement.Convertible (m : Measurement) : Prop :=
  m.dimensions = some [] → m.marginal = false ∧ m.outcome ≠ .PASS ∧ m.measuredValue.isValueSet = false

def Convertible (phases : List (Phase α)) : Prop :=
  ∀ phase ∈ phases, ∀ item ∈ phase.measurements.items, item.2.Convertible

theorem Measurement.isDimensioned_iff (m : Measurement) :
    m.measuredValue.isDimensioned = true ↔ ∃ d ds, m.dimensions = some (d :: ds) := by
  rw [m.shaped]
  rcases m.dimensions with _ | _ | ⟨d, ds⟩ <;> simp

section Returns

variable {uomCodeMap : Option String → Option ℕ}

theorem isSome_extractParameter (s : Conversion α) (item : Name × Measurement) :
    (extractParameter uomCodeMap s item).isSome ↔ item.2.Convertible := by
  obtain ⟨name, m⟩ := item
  have hshaped := m.isDimensioned_iff
  unfold extractParameter Measurement.Convertible
  dsimp only
  split
  · rename_i hunset
    have hunset : m.marginal = false ∧ m.outcome ≠ .PASS ∧ m.measuredValue.isValueSet = false := by
      simpa [and_assoc] using hunset
    exact iff_of_true rfl fun _ ↦ hunset
  · rename_i hset
    have hset : ¬(m.marginal = false ∧ m.outcome ≠ .PASS ∧ m.measuredValue.isValueSet = false) := by
      simpa [and_assoc] using hset
    split
    · rename_i hnone _
      exact iff_of_true rfl fun hempty ↦ by simp [hnone] at hempty
    · rename_i hvalue
      rw [hvalue] at hshaped
      obtain ⟨d, ds, hdimensions⟩ := hshaped.mp rfl
      exact iff_of_true rfl fun hempty ↦ by simp [hdimensions] at hempty
    · rename_i hnone hsome
      refine iff_of_false Bool.false_ne_true fun himp ↦ hset (himp ?_)
      cases hvalue : m.measuredValue with
      | value v =>
          rw [hvalue] at hshaped
          cases hdimensions : m.dimensions with
          | none => exact absurd hvalue (hnone v hdimensions)
          | some dimensions =>
              cases dimensions with
              | nil => rfl
              | cons d ds => exact absurd (hshaped.mpr ⟨d, ds, hdimensions⟩) Bool.false_ne_true
      | dimensioned valueDict =>
          rw [hvalue] at hshaped
          obtain ⟨d, ds, hdimensions⟩ := hshaped.mp rfl
          exact absurd hvalue (hsome _ _ hdimensions)

/-- A loop whose body returns or raises whatever the state is. -/
theorem isSome_foldlM {σ ι : Type} {f : σ → ι → Option σ} {P : ι → Prop}
    (hf : ∀ s i, (f s i).isSome ↔ P i) (items : List ι) (s : σ) :
    (items.foldlM f s).isSome ↔ ∀ i ∈ items, P i := by
  induction items generalizing s with
  | nil => exact iff_of_true rfl nofun
  | cons i items ih =>
      rw [List.foldlM_cons, List.forall_mem_cons, ← hf s i]
      cases f s i with
      | none => simp
      | some s' => simpa using ih s'

variable (uomCodeMap) in
theorem isSome_testRunFromTestRecord (phases : List (Phase α)) :
    (testRunFromTestRecord uomCodeMap phases).isSome ↔ Convertible phases := by
  have hphase : ∀ (s : Conversion α) (phase : Phase α), (extractPhase uomCodeMap s phase).isSome ↔
      ∀ item ∈ phase.measurements.items, item.2.Convertible := by
    intro s phase
    rw [extractPhase, isSome_foldlM isSome_extractParameter]
    exact forall_congr' fun item ↦ imp_congr_left (UniqueNames.perm_sortedItems _).mem_iff
  rw [Convertible, ← isSome_foldlM hphase phases Conversion.start, testRunFromTestRecord]
  cases phases.foldlM (extractPhase uomCodeMap) Conversion.start with
  | none => exact Iff.rfl
  | some s => exact Iff.rfl

end Returns

/-! ## Distinct names -/

/-- A record is converted into parameters with pairwise distinct names if and only if
no mangled name is given to a measurement. -/
theorem nodup_names_iff (uomCodeMap : Option String → Option ℕ) (phases : List (Phase α)) :
    (∃ t, testRunFromTestRecord uomCodeMap phases = some t ∧ t.names.Nodup) ↔
      Convertible phases ∧ NoMangledNameGiven phases := by
  have hnames : ∀ t, testRunFromTestRecord uomCodeMap phases = some t →
      (t.names.Nodup ↔ NoMangledNameGiven phases) := by
    intro t ht
    obtain ⟨s, hrun, hs⟩ := Option.bind_eq_some_iff.mp ht
    obtain rfl := Option.some.inj hs
    exact (extracted_start.phases hrun).names_iff
  rw [← isSome_testRunFromTestRecord uomCodeMap phases]
  constructor
  · rintro ⟨t, ht, hnodup⟩
    exact ⟨by rw [ht]; rfl, (hnames t ht).mp hnodup⟩
  · rintro ⟨hsome, hfree⟩
    obtain ⟨t, ht⟩ := Option.isSome_iff_exists.mp hsome
    exact ⟨t, ht, (hnames t ht).mpr hfree⟩

/-- The value of `v` after 1 s, which is mangled to `v_1s`, and a measurement of that name. -/
def voltages : Phase Unit where
  attachments := ⟨[], List.nodup_nil⟩
  measurements := Dict.update ⟨[], List.nodup_nil⟩ [
    (['v'], {
      dimensions := some [⟨"time", ⟨"second", some "SEC", some "s"⟩⟩]
      measuredValue := .dimensioned [([['1']], .number 5)]
      outcome := .PASS }),
    (['v', '_', '1', 's'], { measuredValue := .value (some (.number 7)), outcome := .PASS })]

theorem not_nodup_names_voltages :
    ∃ t, testRunFromTestRecord (fun _ ↦ none) [voltages] = some t ∧ ¬t.names.Nodup := by
  have hany : (testRunFromTestRecord (fun _ ↦ none) [voltages]).any (¬·.names.Nodup) = true := by
    decide +kernel
  obtain ⟨t, ht, hnot⟩ := (Option.any_eq_true _ _).mp hany
  exact ⟨t, ht, of_decide_eq_true hnot⟩

end OpenHtf.TestRuns
