import OpenHtf.MeasurementCache

/-!
# The cached rows of a dimensioned value

`DimensionedMeasuredValue` keeps the converted rows of its items next to the
items themselves.  They agree in every state of a run if and only if each row
that is cached is the row that is stored.
-/

set_option autoImplicit false

namespace OpenHtf.Measurements

open Act

variable {κ Value Base : Type}

/-! ## Runs of the value -/

inductive DimensionedOp (κ Value : Type) where
  | setItem (c : Coordinates κ) (v : Value)
  | basetypeValue

section Rows

variable [DecidableEq κ] (conv : Conversion κ Value Base)

def DimensionedOp.execute : DimensionedOp κ Value → Stmt κ Value Base Unit
  | setItem c v => setCoordinates conv c v
  | basetypeValue => do
    let _ ← Measurements.basetypeValue conv

/-- What raises leaves the state that it has reached. -/
def DimensionedOp.step (op : DimensionedOp κ Value) (s : Measuring κ Value Base) :
    Measuring κ Value Base := (op.execute conv s).2

def runDimensioned : List (DimensionedOp κ Value) → Measuring κ Value Base → Measuring κ Value Base
  | [], s => s
  | op :: ops, s => runDimensioned ops (op.step conv s)

omit [DecidableEq κ] in
/-- `basetype_value` gives the conversions of the rows of `value`, in their order. -/
def RowsAgree (s : Measuring κ Value Base) : Prop :=
  ∃ d, s.measurement.measuredValue = .dimensioned d ∧
    (basetypeValue conv s).1 = (convertItems conv d.valueDict).map fun rows ↦ some (.inr rows)

/-- A value at new coordinates whose row is cached has, after the transform
function, which returns, the same row. -/
def DimensionedOp.CachesStored (s : Measuring κ Value Base) : DimensionedOp κ Value → Prop
  | setItem c v => ∀ d rows row, s.measurement.measuredValue = .dimensioned d →
      c.len = d.numDimensions → c.hashable = true → d.valueDict.any (·.1 = c.key) = false →
      d.cachedBasetypeValues = some rows → conv.item c.key v = .ok row →
        ∃ w, s.measurement.transformed s.moment v = .ok w ∧ conv.item c.key w = .ok row
  | basetypeValue => True

def RunCachesStored : List (DimensionedOp κ Value) → Measuring κ Value Base → Prop
  | [], _ => True
  | op :: ops, s => op.CachesStored conv s ∧ RunCachesStored ops (op.step conv s)

end Rows

variable {conv : Conversion κ Value Base}

/-! ## Reading -/

theorem rowsAgree_iff {s : Measuring κ Value Base} {d : DimensionedMeasuredValue κ Value Base}
    (hd : s.measurement.measuredValue = .dimensioned d) :
    RowsAgree conv s ↔ AnyMeasuredValue.Cached conv (.dimensioned d) := by
  have hread : RowsAgree conv s ↔
      (basetypeValue conv s).1 = (convertItems conv d.valueDict).map fun rows ↦ some (.inr rows) := by
    constructor
    · rintro ⟨d', hd', hread⟩
      obtain rfl : d' = d := by simpa [hd'] using hd
      exact hread
    · exact fun hread ↦ ⟨d, hd, hread⟩
  rw [hread]
  cases hrows : d.cachedBasetypeValues with
  | none =>
      -- Nothing is cached, and the rows are converted now.
      have hcached : AnyMeasuredValue.Cached conv (.dimensioned d) := by
        intro rows h
        simp [hrows] at h
      refine iff_of_true ?_ hcached
      cases hitems : convertItems conv d.valueDict <;>
        simp [basetypeValue, andThen, hd, hrows, hitems, liftExcept, Except.map]
  | some rows =>
      simp only [basetypeValue, bind_apply, gets_apply, andThen, hd, hrows, pure_apply]
      constructor
      · intro h rows' hrows'
        obtain rfl : rows = rows' := Option.some.inj (hrows.symm.trans hrows')
        cases hitems : convertItems conv d.valueDict with
        | error e => simp [hitems, Except.map] at h
        | ok items => simpa [hitems, Except.map, eq_comm] using h
      · intro h
        simp [h rows hrows, Except.map]

/-! ## Steps -/

def SameValue (s s' : Measuring κ Value Base) : Prop :=
  s'.measurement.measuredValue = s.measurement.measuredValue

instance : Std.Refl (SameValue : Measuring κ Value Base → Measuring κ Value Base → Prop) where
  refl _ := rfl

instance : IsTrans (Measuring κ Value Base) SameValue where
  trans _ _ _ h h' := h'.trans h

theorem sameValue_setOutcome (o : MeasurementOutcome) :
    Within SameValue (setOutcome o : Stmt κ Value Base Unit) := fun _ ↦ rfl

theorem sameValue_notifyValueSet : Within SameValue (notifyValueSet : Stmt κ Value Base Unit) := by
  have hsame {α : Type} {x : Stmt κ Value Base α} (h : Within SameMeasurement x) :
      Within SameValue x := h.weaken fun s s' hs ↦ congrArg Measurement.measuredValue hs
  have hvalidate : Within SameValue (validate : Stmt κ Value Base Unit) := by
    refine .finally' (.catching ?_ fun e ↦ ?_) fun _ ↦ rfl
    · refine .bind .gets fun m ↦ .bind (hsame (same_allValid _)) fun valid ↦
        .ite (fun _ ↦ ?_) fun _ ↦ sameValue_setOutcome _
      refine .bind (sameValue_setOutcome _) fun _ ↦ .bind (hsame (same_anyMarginal _)) fun marginal ↦ ?_
      exact .ite (fun _ _ ↦ rfl) fun _ ↦ .pure
    · exact .ite (fun _ ↦ .bind (sameValue_setOutcome _) fun _ ↦ .raise) fun _ ↦ .raise
  exact .bind .gets fun m ↦ .ite (fun _ ↦ sameValue_setOutcome _) fun _ ↦ hvalidate

/-- A reading caches at most the rows of the items. -/
theorem value_basetypeValue {s : Measuring κ Value Base} {d : DimensionedMeasuredValue κ Value Base}
    (hd : s.measurement.measuredValue = .dimensioned d) :
    SameValue s (basetypeValue conv s).2 ∨ ∃ rows, convertItems conv d.valueDict = .ok rows ∧
      (basetypeValue conv s).2.measurement.measuredValue =
        .dimensioned { d with cachedBasetypeValues := some rows } := by
  cases hrows : d.cachedBasetypeValues with
  | some rows => simp [basetypeValue, andThen, hd, hrows, SameValue]
  | none =>
      cases hitems : convertItems conv d.valueDict with
      | error e => simp [basetypeValue, andThen, hd, hrows, hitems, liftExcept, SameValue]
      | ok rows =>
          refine .inr ⟨rows, rfl, ?_⟩
          simp [basetypeValue, andThen, hd, hrows, hitems, liftExcept, Measuring.mapValue, Measuring.map]

variable [DecidableEq κ]

/-- What a call with the value `v` at the coordinates `c` leaves of the value: all
of it, when the call raises before it caches a row, and otherwise the rows of
`cacheRow` and the items with what the transform function returned, if it did. -/
def SetsTo (conv : Conversion κ Value Base) (d : DimensionedMeasuredValue κ Value Base)
    (c : Coordinates κ) (v : Value) (s s' : Measuring κ Value Base) : Prop :=
  (SameValue s s' ∧
    (c.len = d.numDimensions → c.hashable = true → ∃ e, cacheRow conv d c.key v = .error e)) ∨
  ∃ rows, c.len = d.numDimensions ∧ c.hashable = true ∧ cacheRow conv d c.key v = .ok rows ∧
    s'.measurement.measuredValue = .dimensioned { d with
      cachedBasetypeValues := rows
      valueDict := match s.measurement.transformed s.moment v with
        | .ok w => dictSet c.key w d.valueDict
        | .error _ => d.valueDict }

theorem setsTo_setCoordinates {s : Measuring κ Value Base}
    {d : DimensionedMeasuredValue κ Value Base} (c : Coordinates κ) (v : Value)
    (hd : s.measurement.measuredValue = .dimensioned d) :
    SetsTo conv d c v s (setCoordinates conv c v s).2 := by
  refine (wp_same (P := SetsTo conv d c v s)).mp ?_
  simp only [setCoordinates, wp_bind, wp_gets, hd, wp_ite, wp_raise]
  split
  · rename_i hlen
    exact .inl ⟨rfl, fun h ↦ absurd h hlen⟩
  split
  · rename_i hhash
    exact .inl ⟨rfl, fun _ h ↦ by simp [h] at hhash⟩
  rename_i hlen hhash
  rw [ne_eq, not_not] at hlen
  simp only [Bool.not_eq_true, Bool.not_eq_false'] at hhash
  simp only [wp_liftExcept]
  cases hr : cacheRow conv d c.key v with
  | error e => exact .inl ⟨rfl, fun _ _ ↦ ⟨e, hr⟩⟩
  | ok rows =>
      simp only [wp_modify, wp_transform, Measuring.mapValue_transformed, Measuring.mapValue_moment]
      cases hw : s.measurement.transformed s.moment v with
      | error e =>
          refine .inr ⟨rows, hlen, hhash, hr, ?_⟩
          rw [hw]
          rfl
      | ok w =>
          have hstored (s' : Measuring κ Value Base) (h : s'.measurement.measuredValue = .dimensioned
              { d with cachedBasetypeValues := rows, valueDict := dictSet c.key w d.valueDict }) :
              SetsTo conv d c v s s' := .inr ⟨rows, hlen, hhash, hr, by rw [hw]; exact h⟩
          simp only [wp_pure]
          split
          · exact (sameValue_notifyValueSet.wp _).mono (fun _ s' h ↦ hstored s' h) fun _ s' h ↦ hstored s' h
          · exact hstored _ rfl

omit [DecidableEq κ] in
theorem convertItems_concat_iff {items : List (κ × Value)} {rows : List Base} {key : κ} {w : Value}
    {row : Base} (h : convertItems conv items = .ok rows) :
    convertItems conv (items ++ [(key, w)]) = .ok (rows ++ [row]) ↔ conv.item key w = .ok row := by
  refine ⟨fun hall ↦ ?_, convertItems_concat h⟩
  induction items generalizing rows with
  | nil =>
      obtain rfl : rows = [] := by simpa [convertItems] using h.symm
      cases hrow : conv.item key w <;>
        simp_all [convertItems, bind, Except.bind, pure, Except.pure]
  | cons item items ih =>
      simp only [List.cons_append, convertItems] at h hall
      cases hitem : conv.item item.1 item.2 with
      | error e => simp [hitem, bind, Except.bind] at h
      | ok row' =>
          cases hitems : convertItems conv items with
          | error e => simp [hitem, hitems, bind, Except.bind] at h
          | ok rows' =>
              obtain rfl : row' :: rows' = rows := by
                simpa [hitem, hitems, bind, Except.bind, pure, Except.pure] using h
              apply ih hitems
              cases hrest : convertItems conv (items ++ [(key, w)]) <;>
                simp_all [bind, Except.bind, pure, Except.pure]

/-- A step from a state whose rows agree keeps them so exactly if it caches what
it stores. -/
theorem rowsAgree_step {op : DimensionedOp κ Value} {s : Measuring κ Value Base}
    (h : RowsAgree conv s) : RowsAgree conv (op.step conv s) ↔ op.CachesStored conv s := by
  obtain ⟨d, hd, -⟩ := id h
  have hcached := (rowsAgree_iff hd).mp h
  cases op with
  | basetypeValue =>
      refine iff_of_true ?_ trivial
      have hstep : (DimensionedOp.basetypeValue.step conv s).measurement.measuredValue =
          (basetypeValue conv s).2.measurement.measuredValue := by
        simp only [DimensionedOp.step, DimensionedOp.execute, bind_apply]
        rcases basetypeValue conv s with ⟨_ | _, s'⟩ <;> rfl
      rcases value_basetypeValue hd with hsame | ⟨rows, hitems, hvalue⟩
      · exact (rowsAgree_iff (hstep.trans (hsame.trans hd))).mpr hcached
      · refine (rowsAgree_iff (hstep.trans hvalue)).mpr fun rows' hrows' ↦ ?_
        exact Option.some.inj hrows' ▸ hitems
  | setItem c v =>
      rcases setsTo_setCoordinates c v hd with
        ⟨hsame, hraise⟩ | ⟨rows, hlen, hhash, hr, hvalue⟩
      · refine iff_of_true ((rowsAgree_iff (hsame.trans hd)).mpr hcached) ?_
        intro d' rows row hd' hlen hhash hnew hrows hrow
        obtain rfl : d' = d := by simpa [hd'] using hd
        obtain ⟨e, he⟩ := hraise hlen hhash
        simp [cacheRow, hnew, hrows, hrow] at he
      refine (rowsAgree_iff (s := DimensionedOp.step conv (.setItem c v) s) hvalue).trans ?_
      rcases cacheRow_eq_ok hr with rfl | ⟨rows', row, hnew, hrows', hrow, rfl⟩
      · -- The row is not cached, and the rows will be converted anew.
        refine iff_of_true (fun _ hnone ↦ by simp at hnone) ?_
        intro d' rows row hd' _ _ hnew hrows hrow
        obtain rfl : d' = d := by simpa [hd'] using hd
        simp [cacheRow, hnew, hrows, hrow] at hr
      have hitems : convertItems conv d.valueDict = .ok rows' := hcached rows' hrows'
      constructor
      · intro hafter d' rows row' hd' _ _ _ hrows hrow'
        obtain rfl : d' = d := by simpa [hd'] using hd
        obtain rfl : row = row' := by simpa [hrow] using hrow'
        have hall := hafter _ rfl
        cases hw : s.measurement.transformed s.moment v with
        | error e => simp [hw, hitems] at hall
        | ok w =>
            simp only [hw, dictSet_eq_append hnew] at hall
            exact ⟨w, rfl, (convertItems_concat_iff hitems).mp hall⟩
      · intro hstored rows hrows
        obtain rfl : rows' ++ [row] = rows := by simpa using hrows
        obtain ⟨w, hw, hrow'⟩ := hstored d rows' row hd hlen hhash hnew hrows' hrow
        simp only [hw, dictSet_eq_append hnew]
        exact convertItems_concat hitems hrow'

/-- In every state of a run that begins with an agreeing value the rows agree,
exactly if all its steps cache what they store. -/
theorem rowsAgree_run {ops : List (DimensionedOp κ Value)} {s : Measuring κ Value Base}
    (h : RowsAgree conv s) :
    (∀ k, RowsAgree conv (runDimensioned conv (ops.take k) s)) ↔ RunCachesStored conv ops s := by
  induction ops generalizing s with
  | nil => exact iff_of_true (fun k ↦ by simpa [runDimensioned] using h) trivial
  | cons op ops ih =>
      have hhead : RowsAgree conv (op.step conv s) ↔ op.CachesStored conv s := rowsAgree_step h
      constructor
      · intro hall
        have hstep := hall 1
        rw [List.take_succ_cons, List.take_zero] at hstep
        exact ⟨hhead.mp hstep, (ih hstep).mp fun k ↦ hall (k + 1)⟩
      · rintro ⟨hop, hrest⟩ k
        cases k with
        | zero => exact h
        | succ k => exact (ih (hhead.mpr hop)).mpr hrest k

/-! ## Every state of a run -/

omit [DecidableEq κ] in
/-- A measurement `m` that gets a new dimensioned value. -/
def newlyDimensioned (m : Measurement κ Value Base) (numDimensions : ℕ) (notify : Bool)
    (moment : ℕ) : Measuring κ Value Base where
  measurement := { m with
    measuredValue := .dimensioned { numDimensions := numDimensions, notifyValueSet := notify } }
  moment := moment

theorem rows_agree_iff (conv : Conversion κ Value Base) (m : Measurement κ Value Base)
    (numDimensions : ℕ) (notify : Bool) (moment : ℕ) (ops : List (DimensionedOp κ Value)) :
    (∀ k, RowsAgree conv
      (runDimensioned conv (ops.take k) (newlyDimensioned m numDimensions notify moment))) ↔
      RunCachesStored conv ops (newlyDimensioned m numDimensions notify moment) := by
  apply rowsAgree_run
  rw [rowsAgree_iff (d := { numDimensions := numDimensions, notifyValueSet := notify }) rfl]
  intro rows hrows
  obtain rfl : [] = rows := by simpa using hrows
  rfl

/-- A measurement over one dimension whose values are doubled. -/
def doubled : Declaration ℕ ℕ where
  name := "voltage"
  dimensions := [Dimension.mk "" ⟨"No dimension", "NDL", none⟩]
  transformFn := some fun _ v ↦ .ok (2 * v)

theorem not_rowsAgree_doubled : ¬RowsAgree idConversion
    (runDimensioned idConversion [.setItem ⟨1, true, 10⟩ 3] ⟨doubled.measurement, 1⟩) := by
  rw [rowsAgree_iff (d := ⟨1, false, [(10, 6)], some [13]⟩) rfl]
  intro h
  have hrows := h [13] rfl
  revert hrows
  decide

end OpenHtf.Measurements
