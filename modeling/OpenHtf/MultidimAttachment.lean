import OpenHtf.Lib.Dict
import OpenHtf.Record
import Mathlib.Data.List.Infix
import Mathlib.Data.List.Sort
import Mathlib.Data.Rat.Defs

/-!
# Multidimensional measurements as attachments

`multidim_measurement_to_attachment` and `attachment_to_multidim_measurement`.
The JSON text of an attachment is taken for the document that it denotes: the
json library reads back what it has written.
-/

set_option autoImplicit false

namespace OpenHtf.Multidim

/-! ## The data -/

/-- `units.UnitDescriptor`. -/
structure UnitDescriptor where
  name : String
  code : Option String
  suffix : Option String
  deriving DecidableEq

/-- `units.NONE`. -/
def UnitDescriptor.NONE : UnitDescriptor := ⟨"None", none, none⟩

structure Dimension where
  description : String
  unit : UnitDescriptor
  deriving DecidableEq

namespace Dimension

def name (d : Dimension) : String := if d.description = "" then d.unit.name else d.description

def code (d : Dimension) : Option String := d.unit.code

def suffix (d : Dimension) : Option String := d.unit.suffix

def fromUnitDescriptor (unit : UnitDescriptor) : Dimension := ⟨"", unit⟩

end Dimension

/-- JSON scalars; what Python compares as numbers is compared as rationals. -/
inductive Scalar where
  | null
  | bool (b : Bool)
  | num (x : ℚ)
  | str (s : String)
  deriving DecidableEq

inductive Json where
  | scalar (x : Scalar)
  | array (xs : List Json)
  | object (items : List (String × Json))

/-- What coordinates are given as, or a single one of them: a scalar or a tuple. -/
inductive Coordinates where
  | scalar (x : Scalar)
  | tuple (xs : List Scalar)
  deriving DecidableEq

/-- `measurements.DimensionedMeasuredValue`; the keys are tuples. -/
structure DimensionedMeasuredValue where
  name : Option String
  numDimensions : ℕ
  valueDict : Dict (List Coordinates) Json := ⟨[], List.nodup_nil⟩

structure Measurement where
  name : Option String
  units : Option UnitDescriptor
  dimensions : List Dimension
  measuredValue : DimensionedMeasuredValue
  outcome : Option MeasurementOutcome
  marginal : Bool

/-- The data of an attachment. -/
structure DocumentDimension where
  uomSuffix : String
  uomCode : Option String
  name : Option String

structure Document where
  outcome : Scalar
  name : Option String
  dimensions : List DocumentDimension
  value : Option (List (List Json))

/-! ## Values -/

/-- `_coordinates_len`. -/
def Coordinates.len : Coordinates → ℕ
  | scalar _ => 1
  | tuple xs => xs.length

/-- The tuple of coordinates that are given one by one. -/
def Coordinates.toKey : Coordinates → List Coordinates
  | scalar x => [.scalar x]
  | tuple xs => xs.map .scalar

namespace DimensionedMeasuredValue

/-- `__setitem__`, without a transform function and a callback; `none` is an exception. -/
def setItem (coordinates : Coordinates) (value : Json) (v : DimensionedMeasuredValue) :
    Option DimensionedMeasuredValue :=
  if coordinates.len ≠ v.numDimensions then none
  else
    let key := if v.numDimensions = 1 then [coordinates] else coordinates.toKey
    some { v with valueDict := v.valueDict.set key value }

def isValueSet (v : DimensionedMeasuredValue) : Bool := !v.valueDict.items.isEmpty

end DimensionedMeasuredValue

/-! ## Sorting -/

namespace Scalar

def number? : Scalar → Option ℚ
  | bool b => some (if b then 1 else 0)
  | num x => some x
  | _ => none

/-- `x < y`; `none` is a TypeError. -/
def less (x y : Scalar) : Option Bool :=
  match x.number?, y.number?, x, y with
  | some p, some q, _, _ => some (p < q)
  | _, _, str s, str t => some (s < t)
  | _, _, _, _ => none

/-- `x == y`. -/
def equal (x y : Scalar) : Bool :=
  match x.number?, y.number? with
  | some p, some q => p = q
  | _, _ => x = y

/-- Tuples are compared by their first elements that differ. -/
def tupleLess : List Scalar → List Scalar → Option Bool
  | [], [] => some false
  | [], _ :: _ => some true
  | _ :: _, [] => some false
  | x :: xs, y :: ys => if x.equal y then tupleLess xs ys else x.less y

end Scalar

def Coordinates.less : Coordinates → Coordinates → Option Bool
  | scalar x, scalar y => x.less y
  | tuple xs, tuple ys => Scalar.tupleLess xs ys
  | _, _ => none

abbrev Item : Type := List Coordinates × Json

/-- `a[0] < b[0]` for rows of measurements with coordinates. -/
def itemLess (a b : Item) : Option Bool := (a.1.head?.bind fun x ↦ b.1.head?.map x.less).join

/-- Two rows can be compared, whichever comes first. -/
def Comparable (a b : Item) : Prop := (itemLess a b).isSome ∧ (itemLess b a).isSome

instance : DecidableRel Comparable := fun a b ↦
  inferInstanceAs (Decidable ((itemLess a b).isSome ∧ (itemLess b a).isSome))

/-- `sorted(rows, key=lambda x: x[0])`, which raises if some of them cannot be compared. -/
def sortedItems (items : List Item) : Option (List Item) :=
  if items.Pairwise Comparable then some (items.insertionSort fun a b ↦ itemLess b a ≠ some true)
  else none

/-! ## The two functions -/

/-- `MEASUREMENT_OUTCOME_TO_TEST_RUN_STATUS_NAME`. -/
def testRunStatusName : MeasurementOutcome → String
  | .PASS => "PASS"
  | .FAIL => "FAIL"
  | .UNSET => "ERROR"
  | .PARTIALLY_SET => "ERROR"
  | .SKIPPED => "SKIPPED"

/-- `TEST_RUN_STATUS_NAME_TO_MEASUREMENT_OUTCOME`. -/
def measurementOutcome : String → Option MeasurementOutcome
  | "PASS" => some .PASS
  | "MARGINAL_PASS" => some .PASS
  | "FAIL" => some .FAIL
  | "ERROR" => some .UNSET
  | "SKIPPED" => some .SKIPPED
  | _ => none

/-- `_measurement_outcome_to_test_run_status_name`. -/
def measurementOutcomeToTestRunStatusName (outcome : Option MeasurementOutcome) (marginal : Bool) :
    Option String :=
  if marginal then some "MARGINAL_PASS" else outcome.map testRunStatusName

/-- `_test_run_status_name_to_measurement_outcome_and_marginal`. -/
def testRunStatusNameToMeasurementOutcomeAndMarginal (name : String) :
    Option (MeasurementOutcome × Bool) :=
  (measurementOutcome name).map fun outcome ↦ (outcome, decide ("MARGINAL".toList <:+: name.toList))

def Coordinates.toJson : Coordinates → Json
  | scalar x => .scalar x
  | tuple xs => .array (xs.map .scalar)

def itemToRow (item : Item) : List Json := item.1.map Coordinates.toJson ++ [item.2]

def Dimension.toDocument (d : Dimension) : DocumentDimension :=
  ⟨d.suffix.getD "", d.code, some d.name⟩

def multidimMeasurementToAttachment (name : String) (m : Measurement) : Option Document := do
  let dimensions := m.dimensions ++ (m.units.map Dimension.fromUnitDescriptor).toList
  let value ← if m.measuredValue.isValueSet then (sortedItems m.measuredValue.valueDict.items).map some
    else some none
  let outcome ← measurementOutcomeToTestRunStatusName m.outcome m.marginal
  return {
    outcome := .str outcome
    name := some name
    dimensions := dimensions.map Dimension.toDocument
    value := value.map (·.map itemToRow) }

/-- `UNITS_BY_CODE`, filled from the units in `UNITS_BY_NAME`. -/
def unitsByCode (unitsByName : List UnitDescriptor) : List (Option String × UnitDescriptor) :=
  dictUpdate (unitsByName.map fun unit ↦ (unit.code, unit)) []

/-- The outcome and the flag that a document tells.  `legacyStatusName` is what
`Status.Name(int(x))` gives: `none` if it raises something else than ValueError. -/
def outcomeAndMarginal (legacyStatusName : Scalar → Option (Option String)) (outcome : Scalar) :
    Option (Option MeasurementOutcome × Bool) :=
  let known : Option String :=
    match outcome with
    | .str s => if (measurementOutcome s).isSome then some s else none
    | _ => none
  match known with
  | some s => (testRunStatusNameToMeasurementOutcomeAndMarginal s).map fun o ↦ (some o.1, o.2)
  | none =>
    match legacyStatusName outcome with
    | none => none
    | some none => some (none, false)
    | some (some s) => (testRunStatusNameToMeasurementOutcomeAndMarginal s).map fun o ↦ (some o.1, o.2)

def DocumentDimension.toDimension (unitsByName : List UnitDescriptor) (d : DocumentDimension) : Dimension :=
  ⟨d.name.getD "", ((unitsByCode unitsByName).lookup d.uomCode).getD .NONE⟩

/-- A coordinate of a row, which must be hashable. -/
def Json.toScalar? : Json → Option Scalar
  | scalar x => some x
  | _ => none

/-- `measured_value[tuple(row[:-1])] = row[-1]`. -/
def setRow (v : DimensionedMeasuredValue) (row : List Json) : Option DimensionedMeasuredValue := do
  let value ← row.getLast?
  let coordinates ← row.dropLast.mapM Json.toScalar?
  v.setItem (.tuple coordinates) value

/-- `_RESERVED_MEASUREMENT_NAMES`. -/
def reservedMeasurementNames : List String := ["set_measurement_outcome_to_skipped"]

/-- `name or data.get('name')`. -/
def chooseName (name documentName : Option String) : Option String :=
  match name with
  | none | some "" => documentName
  | some name => some name

/-- The units are the last dimension if there is one for each entry of a row. -/
def splitUnits (dims : List Dimension) (value : Option (List (List Json))) :
    Option UnitDescriptor × List Dimension :=
  match value with
  | some (row :: _) =>
    if dims.length = row.length then (dims.getLast?.map Dimension.unit, dims.dropLast) else (none, dims)
  | _ => (none, dims)

def attachmentToMultidimMeasurement (unitsByName : List UnitDescriptor)
    (legacyStatusName : Scalar → Option (Option String)) (doc : Document)
    (name : Option String := none) : Option Measurement := do
  let name := chooseName name doc.name
  let (outcome, marginal) ← outcomeAndMarginal legacyStatusName doc.outcome
  let dims := doc.dimensions.map (DocumentDimension.toDimension unitsByName)
  let (units, dimensions) := splitUnits dims doc.value
  let rows ← doc.value
  let measuredValue ← rows.foldlM setRow { name := name, numDimensions := dimensions.length }
  if name.any (· ∈ reservedMeasurementNames) then none
  else return ⟨name, units, dimensions, measuredValue, outcome, marginal⟩

/-! ## What survives -/

structure Survives (m m' : Measurement) : Prop where
  outcome : m'.outcome = m.outcome
  marginal : m'.marginal = m.marginal
  units : m'.units.map UnitDescriptor.code = m.units.map UnitDescriptor.code
  dimensionNames : m'.dimensions.map Dimension.name = m.dimensions.map Dimension.name
  dimensionCodes : m'.dimensions.map Dimension.code = m.dimensions.map Dimension.code
  value : ∀ key, m'.measuredValue.valueDict.lookup key = m.measuredValue.valueDict.lookup key

/-- A measurement that is set, with scalar coordinates of which the first ones can
be compared, and with units that their codes identify. -/
structure Exportable (unitsByName : List UnitDescriptor) (m : Measurement) : Prop where
  dimensions : m.dimensions ≠ []
  isSet : m.measuredValue.isValueSet = true
  coordinates : ∀ item ∈ m.measuredValue.valueDict.items, ∃ xs : List Scalar,
    xs.length = m.dimensions.length ∧ item.1 = xs.map .scalar
  comparable : m.measuredValue.valueDict.items.Pairwise Comparable
  units : ∀ unit, m.units = some unit → (unitsByCode unitsByName).lookup unit.code = some unit
  dimensionUnits : ∀ d ∈ m.dimensions, (unitsByCode unitsByName).lookup d.code = some d.unit
  outcome : m.outcome = some .PASS ∨ m.outcome = some .FAIL ∨ m.outcome = some .SKIPPED
  marginal : m.marginal = true → m.outcome = some .PASS

/-! ## The parts of a document -/

theorem Dimension.name_toDimension (d : Dimension) : (⟨d.name, d.unit⟩ : Dimension).name = d.name := by
  rw [Dimension.name]
  split
  · rename_i hempty
    dsimp only at hempty ⊢
    unfold Dimension.name at hempty ⊢
    split at hempty
    · rw [if_pos ‹_›]
    · exact absurd hempty ‹_›
  · rfl

theorem toDimension_toDocument {unitsByName : List UnitDescriptor} {d : Dimension}
    (h : (unitsByCode unitsByName).lookup d.code = some d.unit) :
    d.toDocument.toDimension unitsByName = ⟨d.name, d.unit⟩ := by
  simp [Dimension.toDocument, DocumentDimension.toDimension, h]

theorem outcomeAndMarginal_str {status : String} {outcome : MeasurementOutcome}
    (h : measurementOutcome status = some outcome) (legacyStatusName : Scalar → Option (Option String)) :
    outcomeAndMarginal legacyStatusName (.str status) =
      some (some outcome, decide ("MARGINAL".toList <:+: status.toList)) := by
  simp [outcomeAndMarginal, testRunStatusNameToMeasurementOutcomeAndMarginal, h]

/-- The outcome and the flag come back. -/
theorem outcomeAndMarginal_eq {unitsByName : List UnitDescriptor} {m : Measurement}
    (h : Exportable unitsByName m) (legacyStatusName : Scalar → Option (Option String)) :
    ∃ status, measurementOutcomeToTestRunStatusName m.outcome m.marginal = some status ∧
      outcomeAndMarginal legacyStatusName (.str status) = some (m.outcome, m.marginal) := by
  have hmarginal := h.marginal
  cases hm : m.marginal with
  | true =>
      rw [hmarginal hm]
      refine ⟨"MARGINAL_PASS", rfl, (outcomeAndMarginal_str rfl legacyStatusName).trans ?_⟩
      decide
  | false =>
      rcases h.outcome with ho | ho | ho
      · rw [ho]
        exact ⟨"PASS", rfl, (outcomeAndMarginal_str rfl legacyStatusName).trans (by decide)⟩
      · rw [ho]
        exact ⟨"FAIL", rfl, (outcomeAndMarginal_str rfl legacyStatusName).trans (by decide)⟩
      · rw [ho]
        exact ⟨"SKIPPED", rfl, (outcomeAndMarginal_str rfl legacyStatusName).trans (by decide)⟩

/-! ## The rows of a document -/

section Rows

variable {v : DimensionedMeasuredValue} {items : List Item}

/-- The key that a row with these coordinates gets when it is read. -/
def readKey (n : ℕ) (xs : List Scalar) : List Coordinates :=
  if n = 1 then [.tuple xs] else xs.map .scalar

theorem mapM_toScalar (xs : List Scalar) : (xs.map Json.scalar).mapM Json.toScalar? = some xs := by
  induction xs with
  | nil => rfl
  | cons x xs ih => simp [List.mapM_cons, Json.toScalar?, ih]

theorem setRow_itemToRow {xs : List Scalar} (value : Json) (hlength : xs.length = v.numDimensions) :
    setRow v (itemToRow (xs.map .scalar, value)) =
      some { v with valueDict := v.valueDict.set (readKey v.numDimensions xs) value } := by
  have hcoordinates := mapM_toScalar xs
  have hrow : (xs.map Coordinates.scalar).map Coordinates.toJson = xs.map Json.scalar := by
    simp [Coordinates.toJson, Function.comp_def]
  simp [setRow, itemToRow, DimensionedMeasuredValue.setItem, Coordinates.len, hlength, readKey,
    Coordinates.toKey, hrow, hcoordinates]

/-- The rows of items are set one after the other. -/
theorem foldlM_setRow {rows : List (List Scalar × Json)}
    (hlength : ∀ row ∈ rows, row.1.length = v.numDimensions) :
    (rows.map fun row ↦ itemToRow (row.1.map .scalar, row.2)).foldlM setRow v = some { v with
      valueDict := v.valueDict.update (rows.map fun row ↦ (readKey v.numDimensions row.1, row.2)) } := by
  induction rows generalizing v with
  | nil => rfl
  | cons row rows ih =>
      have hrest := ih (v := { v with valueDict := v.valueDict.set (readKey v.numDimensions row.1) row.2 })
        fun row' h ↦ hlength row' (by simp [h])
      rw [List.map_cons, List.foldlM_cons, setRow_itemToRow row.2 (hlength row (by simp))]
      exact hrest

end Rows

/-! ## Sorting the items -/

theorem sortedItems_eq {items : List Item} (h : items.Pairwise Comparable) :
    ∃ sorted, sortedItems items = some sorted ∧ sorted.Perm items :=
  ⟨_, if_pos h, List.perm_insertionSort _ _⟩

/-- Items with scalar coordinates as rows. -/
theorem exists_rows {items : List Item} {n : ℕ}
    (h : ∀ item ∈ items, ∃ xs : List Scalar, xs.length = n ∧ item.1 = xs.map .scalar) :
    ∃ rows : List (List Scalar × Json), items = rows.map (fun row ↦ (row.1.map .scalar, row.2)) ∧
      ∀ row ∈ rows, row.1.length = n := by
  induction items with
  | nil => exact ⟨[], rfl, nofun⟩
  | cons item items ih =>
      obtain ⟨rows, hrows, hlengths⟩ := ih fun item' h' ↦ h item' (by simp [h'])
      obtain ⟨xs, hlength, hkey⟩ := h item (by simp)
      refine ⟨(xs, item.2) :: rows, ?_, ?_⟩
      · rw [List.map_cons, ← hrows, ← hkey]
      · simpa [hlength] using hlengths

/-! ## Reading what was written -/

section RoundTrip

variable {unitsByName : List UnitDescriptor} {m : Measurement}
  (legacyStatusName : Scalar → Option (Option String))

/-- The document that is written. -/
theorem toAttachment_eq (h : Exportable unitsByName m) (name : String) :
    ∃ status, ∃ sorted : List Item, sorted.Perm m.measuredValue.valueDict.items ∧
      outcomeAndMarginal legacyStatusName (.str status) = some (m.outcome, m.marginal) ∧
      multidimMeasurementToAttachment name m = some {
        outcome := .str status
        name := some name
        dimensions := (m.dimensions ++ (m.units.map Dimension.fromUnitDescriptor).toList).map
          Dimension.toDocument
        value := some (sorted.map itemToRow) } := by
  obtain ⟨status, hstatus, hread⟩ := outcomeAndMarginal_eq h legacyStatusName
  obtain ⟨sorted, hsorted, hperm⟩ := sortedItems_eq h.comparable
  refine ⟨status, sorted, hperm, hread, ?_⟩
  simp [multidimMeasurementToAttachment, h.isSet, hsorted, hstatus]

/-- The dimensions, and behind them the unit, that are read. -/
theorem toDimension_documents (h : Exportable unitsByName m) :
    ((m.dimensions ++ (m.units.map Dimension.fromUnitDescriptor).toList).map Dimension.toDocument).map
        (DocumentDimension.toDimension unitsByName) =
      m.dimensions.map (fun d ↦ ⟨d.name, d.unit⟩) ++
        (m.units.map fun unit ↦ (⟨unit.name, unit⟩ : Dimension)).toList := by
  rw [List.map_map, List.map_append]
  refine congrArg₂ _ (List.map_congr_left fun d hd ↦ toDimension_toDocument (h.dimensionUnits d hd)) ?_
  cases hunits : m.units with
  | none => rfl
  | some unit =>
      have hunit : (unitsByCode unitsByName).lookup (Dimension.fromUnitDescriptor unit).code = some unit :=
        h.units unit hunits
      exact congrArg (fun d ↦ [d]) (toDimension_toDocument hunit)

theorem splitUnits_eq (dims : List Dimension) (units : Option UnitDescriptor) {row : List Json}
    (hrow : row.length = dims.length + 1) (rows : List (List Json)) :
    splitUnits (dims ++ (units.map fun unit ↦ (⟨unit.name, unit⟩ : Dimension)).toList) (some (row :: rows)) =
      (units, dims) := by
  cases units with
  | none => simp [splitUnits, hrow]
  | some unit => simp [splitUnits, hrow]

theorem chooseName_none (documentName : Option String) : chooseName none documentName = documentName := rfl

/-- A document with rows as long as they are written is read as what it was. -/
theorem ofAttachment_eq (h : Exportable unitsByName m) (name status : String)
    (hread : outcomeAndMarginal legacyStatusName (.str status) = some (m.outcome, m.marginal))
    {rows : List (List Scalar × Json)} (hne : rows ≠ []) (hlength : ∀ row ∈ rows, row.1.length = m.dimensions.length) :
    attachmentToMultidimMeasurement unitsByName legacyStatusName {
        outcome := .str status
        name := some name
        dimensions := (m.dimensions ++ (m.units.map Dimension.fromUnitDescriptor).toList).map
          Dimension.toDocument
        value := some (rows.map fun row ↦ itemToRow (row.1.map .scalar, row.2)) } =
      if name ∈ reservedMeasurementNames then none
      else some {
        name := some name
        units := m.units
        dimensions := m.dimensions.map fun d ↦ ⟨d.name, d.unit⟩
        measuredValue := {
          name := some name
          numDimensions := m.dimensions.length
          valueDict := Dict.update ⟨[], List.nodup_nil⟩
            (rows.map fun row ↦ (readKey m.dimensions.length row.1, row.2)) }
        outcome := m.outcome
        marginal := m.marginal } := by
  obtain ⟨row, rest, rfl⟩ := List.exists_cons_of_ne_nil hne
  have hrow : (itemToRow (row.1.map .scalar, row.2)).length = m.dimensions.length + 1 := by
    simp [itemToRow, hlength row (by simp)]
  have hsplit := splitUnits_eq (m.dimensions.map fun d ↦ (⟨d.name, d.unit⟩ : Dimension)) m.units
    (hrow.trans (by rw [List.length_map])) (rest.map fun row ↦ itemToRow (row.1.map .scalar, row.2))
  have hfold := foldlM_setRow (v := { name := some name, numDimensions := m.dimensions.length }) hlength
  rw [List.map_cons] at hfold
  simp only [attachmentToMultidimMeasurement, hread, toDimension_documents h, List.map_cons, hsplit,
    List.length_map, Option.bind_eq_bind, Option.bind_some, chooseName_none, hfold, Option.any_some,
    decide_eq_true_eq]
  rfl

end RoundTrip

/-! ## Whether the values are found again -/

section Keys

variable {rows : List (List Scalar × Json)} {n : ℕ} {d : Dict (List Coordinates) Json}

/-- With several dimensions, a row gets the key that it was written from. -/
theorem lookup_readKey (hn : n ≠ 1) (hperm : (rows.map fun row ↦ (row.1.map .scalar, row.2)).Perm d.items)
    (key : List Coordinates) :
    (Dict.update ⟨[], List.nodup_nil⟩ (rows.map fun row ↦ (readKey n row.1, row.2))).lookup key =
      d.lookup key := by
  have hkeys : (rows.map fun row ↦ (readKey n row.1, row.2)) =
      rows.map fun row ↦ (row.1.map Coordinates.scalar, row.2) := by
    refine List.map_congr_left fun row _ ↦ ?_
    rw [readKey, if_neg hn]
  rw [hkeys]
  exact Dict.lookup_update_perm hperm key

/-- With one dimension, it gets a key that nothing was written from. -/
theorem lookup_readKey_one (row : List Scalar × Json) (hrow : row.1.length = 1) :
    (Dict.update ⟨[], List.nodup_nil⟩ (rows.map fun row ↦ (readKey 1 row.1, row.2))).lookup
      (row.1.map .scalar) = none := by
  obtain ⟨x, hx⟩ := List.length_eq_one_iff.mp hrow
  rw [hx]
  refine (Dict.lookup_update_of_not_mem ⟨[], List.nodup_nil⟩ ?_).trans rfl
  simp [readKey]

/-- All the values are found if and only if there are several dimensions. -/
theorem lookup_eq_iff (hne : rows ≠ []) (hlength : ∀ row ∈ rows, row.1.length = n) (hn : n ≠ 0)
    (hperm : (rows.map fun row ↦ (row.1.map .scalar, row.2)).Perm d.items) :
    (∀ key, (Dict.update ⟨[], List.nodup_nil⟩ (rows.map fun row ↦ (readKey n row.1, row.2))).lookup key =
      d.lookup key) ↔ 2 ≤ n := by
  constructor
  · intro hlookup
    by_contra hlt
    obtain rfl : n = 1 := by omega
    obtain ⟨row, rest, rfl⟩ := List.exists_cons_of_ne_nil hne
    have hmem : (row.1.map Coordinates.scalar, row.2) ∈ d.items := hperm.mem_iff.mp (by simp)
    have hsome := Dict.lookup_of_mem_items hmem
    have hnone := (hlookup _).symm.trans (lookup_readKey_one row (hlength row (by simp)))
    rw [hsome] at hnone
    cases hnone
  · intro hle key
    exact lookup_readKey (by omega) hperm key

end Keys

/-! ## The round trip -/

/-- A measurement survives if and only if it has several dimensions, given that it is
written under a name that a measurement may have. -/
theorem survives_iff {unitsByName : List UnitDescriptor} {m : Measurement} (h : Exportable unitsByName m)
    (legacyStatusName : Scalar → Option (Option String)) (name : String) :
    (∃ doc m', multidimMeasurementToAttachment name m = some doc ∧
      attachmentToMultidimMeasurement unitsByName legacyStatusName doc = some m' ∧ Survives m m') ↔
      2 ≤ m.dimensions.length ∧ name ∉ reservedMeasurementNames := by
  obtain ⟨status, sorted, hperm, hread, hwrite⟩ := toAttachment_eq legacyStatusName h name
  obtain ⟨rows, hrows, hlength⟩ := exists_rows fun item hitem ↦
    h.coordinates item (hperm.mem_iff.mp hitem)
  have hset : m.measuredValue.valueDict.items ≠ [] := by
    simpa [DimensionedMeasuredValue.isValueSet] using h.isSet
  have hne : rows ≠ [] := by
    rintro rfl
    rw [hrows] at hperm
    exact hset (List.nil_perm.mp hperm)
  have hn : m.dimensions.length ≠ 0 := mt List.length_eq_zero_iff.mp h.dimensions
  have hvalues := lookup_eq_iff hne hlength hn (hrows ▸ hperm)
  have hresult := ofAttachment_eq legacyStatusName h name status hread hne hlength
  have hvalue : sorted.map itemToRow = rows.map fun row ↦ itemToRow (row.1.map .scalar, row.2) := by
    rw [hrows, List.map_map]
    rfl
  rw [hvalue] at hwrite
  constructor
  · rintro ⟨doc, m', hdoc, hm', hsurvives⟩
    obtain rfl := Option.some.inj (hwrite.symm.trans hdoc)
    rw [hresult] at hm'
    split at hm'
    · cases hm'
    · obtain rfl := Option.some.inj hm'
      exact ⟨hvalues.mp hsurvives.value, ‹_›⟩
  · rintro ⟨hseveral, hname⟩
    refine ⟨_, _, hwrite, hresult.trans (if_neg hname), ⟨rfl, rfl, rfl, ?_, ?_, hvalues.mpr hseveral⟩⟩
    · rw [List.map_map]
      exact List.map_congr_left fun d _ ↦ d.name_toDimension
    · rw [List.map_map]
      rfl

/-! ## With one dimension and with two -/

def second : UnitDescriptor := ⟨"second", some "SEC", some "s"⟩

def volt : UnitDescriptor := ⟨"volt", some "VLT", some "V"⟩

/-- A measurement in volts with the given dimensions and keys. -/
def voltage (dimensions : List Dimension) (valueDict : Dict (List Coordinates) Json) : Measurement where
  name := some "voltage"
  units := some volt
  dimensions := dimensions
  measuredValue := ⟨some "voltage", dimensions.length, valueDict⟩
  outcome := some .PASS
  marginal := true

theorem exportable_voltage {dimensions : List Dimension} (xs : List Scalar) (hne : dimensions ≠ [])
    (hunits : ∀ d ∈ dimensions, d.unit = second) (hlength : xs.length = dimensions.length) (value : Json) :
    Exportable [second, volt] (voltage dimensions ⟨[(xs.map .scalar, value)], List.nodup_singleton _⟩) where
  dimensions := hne
  isSet := rfl
  coordinates := by
    intro item hitem
    rw [List.mem_singleton.mp hitem]
    exact ⟨xs, hlength, rfl⟩
  comparable := List.pairwise_singleton _ _
  units := by
    intro unit hunit
    obtain rfl := Option.some.inj hunit
    rfl
  dimensionUnits := by
    intro d hd
    rw [Dimension.code, hunits d hd]
    rfl
  outcome := Or.inl rfl
  marginal := fun _ ↦ rfl

def overTwoTimes : Measurement :=
  voltage [⟨"time", second⟩, ⟨"settling", second⟩]
    ⟨[([.scalar (.num 3), .scalar (.str "a")], .scalar (.num 5))], List.nodup_singleton _⟩

theorem survives_overTwoTimes :
    ∃ doc m', multidimMeasurementToAttachment "voltage" overTwoTimes = some doc ∧
      attachmentToMultidimMeasurement [second, volt] (fun _ ↦ some none) doc = some m' ∧
      Survives overTwoTimes m' :=
  (survives_iff (exportable_voltage [.num 3, .str "a"] (by simp) (by simp) rfl _)
    (fun _ ↦ some none) "voltage").mpr ⟨Nat.le_refl 2, by decide⟩

def overTime : Measurement :=
  voltage [⟨"time", second⟩] ⟨[([.scalar (.num 3)], .scalar (.num 5))], List.nodup_singleton _⟩

/-- The key is read as a tuple in a tuple. -/
theorem not_survives_overTime :
    Exportable [second, volt] overTime ∧
      ¬∃ doc m', multidimMeasurementToAttachment "voltage" overTime = some doc ∧
        attachmentToMultidimMeasurement [second, volt] (fun _ ↦ some none) doc = some m' ∧
        Survives overTime m' := by
  refine ⟨exportable_voltage [.num 3] (by simp) (by simp) rfl _, ?_⟩
  rintro ⟨doc, m', hdoc, hm', hsurvives⟩
  obtain rfl := Option.some.inj hdoc
  obtain rfl := Option.some.inj hm'
  have hlookup := hsurvives.value [.scalar (.num 3)]
  cases hlookup

end OpenHtf.Multidim
