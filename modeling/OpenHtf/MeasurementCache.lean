import OpenHtf.Measurements

/-!
# The cached dict of a measurement

`as_base_types` keeps one dict and patches it, while the outcome and the value
are written from several places.  The dict agrees with the measurement as long
as nothing writes an outcome past `validate` into a measurement whose dict is
cached, and the cached values are those that are stored.
-/

set_option autoImplicit false

namespace OpenHtf.Measurements

open Act

variable {κ Value Base : Type}

section Agreement

variable (conv : Conversion κ Value Base)

/-- The conversion of the value that is set. -/
def convertMeasured : Measured κ Value → Except PyExc (Base ⊕ List Base)
  | .value x => (conv.value x).map .inl
  | .items items => (convertItems conv items).map .inr

/-- The dict built from scratch. -/
def Measurement.baseTypes (m : Measurement κ Value Base) : Except PyExc (BaseDict Base) := do
  if m.measuredValue.isValueSet then
    let x ← m.measuredValue.value
    let value ← convertMeasured conv x
    pure { m.describe with measuredValue := some value }
  else pure m.describe

def CacheAgrees (s : Measuring κ Value Base) : Prop :=
  (asBaseTypes conv s).1 = s.measurement.baseTypes conv

/-! ## The condition -/

/-- Writing the outcome `o` past the cached dict changes nothing in it. -/
def Measurement.MayAssign (m : Measurement κ Value Base) (o : MeasurementOutcome) : Prop :=
  m.cached = none ∨ m.outcome = o

/-- Setting a value at coordinates caches the row that it stores, and writes its
outcome past no other. -/
structure KeepsRows [DecidableEq κ] (s : Measuring κ Value Base)
    (d : DimensionedMeasuredValue κ Value Base) (key : κ) (v : Value) : Prop where
  row : ∀ row rows, d.valueDict.any (·.1 = key) = false → d.cachedBasetypeValues = some rows →
    conv.item key v = .ok row →
      ∃ w, s.measurement.transformed s.moment v = .ok w ∧ conv.item key w = .ok row
  outcome : ∀ rows w, cacheRow conv d key v = .ok rows →
    s.measurement.transformed s.moment v = .ok w → s.measurement.dimensions ≠ [] →
      d.notifyValueSet = true → s.measurement.MayAssign .PARTIALLY_SET

def Op.KeepsCache [DecidableEq κ] (s : Measuring κ Value Base) : Op κ Value → Prop
  | setItem v => s.measurement.dimensions = [] → s.measurement.measuredValue.isValueSet = true →
      ∀ w, s.measurement.transformed s.moment v = .ok w → ∃ base, conv.value w = .ok base
  | setCoordinates c v => ∀ d, s.measurement.measuredValue = .dimensioned d →
      c.len = d.numDimensions → c.hashable = true → KeepsRows conv s { d with notifyValueSet := true } c.key v
  | setCoordinatesDirectly c v => ∀ d, s.measurement.measuredValue = .dimensioned d →
      c.len = d.numDimensions → c.hashable = true → KeepsRows conv s d c.key v
  | skip => s.measurement.measuredValue.isValueSet = false → s.measurement.MayAssign .SKIPPED
  | finalize phaseSkipped => phaseSkipped = true → s.measurement.outcome = .UNSET →
      s.measurement.cached = none
  | validate => True
  | asBaseTypes => True

def RunKeepsCache [DecidableEq κ] : List (Op κ Value) → Measuring κ Value Base → Prop
  | [], _ => True
  | op :: ops, s => op.KeepsCache conv s ∧ RunKeepsCache ops (op.step conv s)

/-! ## The invariant -/

/-- The cached conversions of a value are those of what it holds. -/
def AnyMeasuredValue.Cached : AnyMeasuredValue κ Value Base → Prop
  | plain v => v.isValueSet = true → ∃ x base,
      v.storedValue = some x ∧ v.cachedValue = some base ∧ conv.value x = .ok base
  | dimensioned d => ∀ rows, d.cachedBasetypeValues = some rows →
      convertItems conv d.valueDict = .ok rows

/-- The cached dict is right but for the outcome. -/
structure Described (m : Measurement κ Value Base) : Prop where
  value : m.measuredValue.Cached conv
  dict : ∀ d, m.cached = some d →
    { d with measuredValue := none, outcome := m.outcome.name } = m.describe
  valueSet : ∀ d, m.cached = some d → d.measuredValue.isSome → m.measuredValue.isValueSet = true

structure Cached (m : Measurement κ Value Base) : Prop extends Described conv m where
  outcome : ∀ d, m.cached = some d → d.outcome = m.outcome.name

end Agreement

variable {conv : Conversion κ Value Base}

theorem convertItems_concat {items : List (κ × Value)} {rows : List Base} {key : κ} {v : Value}
    {row : Base} (h : convertItems conv items = .ok rows) (hrow : conv.item key v = .ok row) :
    convertItems conv (items ++ [(key, v)]) = .ok (rows ++ [row]) := by
  induction items generalizing rows with
  | nil =>
      obtain rfl : rows = [] := by simpa [convertItems] using h.symm
      simp [convertItems, hrow, bind, Except.bind, pure, Except.pure]
  | cons item items ih =>
      simp only [List.cons_append, convertItems] at h ⊢
      cases hitem : conv.item item.1 item.2 with
      | error e => simp [hitem, bind, Except.bind] at h
      | ok row' =>
          cases hitems : convertItems conv items with
          | error e => simp [hitem, hitems, bind, Except.bind] at h
          | ok rows' =>
              obtain rfl : row' :: rows' = rows := by
                simpa [hitem, hitems, bind, Except.bind, pure, Except.pure] using h
              simp [ih hitems, bind, Except.bind, pure, Except.pure]

/-! ## Validation -/

/-- The fields that neither the dict nor the value depends on, and the outcome. -/
theorem Described.of_outcome {m m' : Measurement κ Value Base} (h : Described conv m)
    (hdecl : m'.toDeclaration = m.toDeclaration) (hvalue : m'.measuredValue = m.measuredValue)
    (hcached : m'.cached = m.cached) : Described conv m' := by
  refine ⟨hvalue ▸ h.value, fun d hd ↦ ?_, fun d hd ↦ hvalue ▸ h.valueSet d (hcached ▸ hd)⟩
  have hdict := h.dict d (hcached ▸ hd)
  simp only [Measurement.describe, hdecl, BaseDict.mk.injEq] at hdict ⊢
  exact ⟨hdict.1, trivial, hdict.2.2⟩

theorem Cached.of_outcome {m m' : Measurement κ Value Base} (h : Cached conv m)
    (hdecl : m'.toDeclaration = m.toDeclaration) (hvalue : m'.measuredValue = m.measuredValue)
    (hcached : m'.cached = m.cached) (ho : m.cached = none ∨ m.outcome = m'.outcome) :
    Cached conv m' := by
  refine ⟨h.toDescribed.of_outcome hdecl hvalue hcached, fun d hd ↦ ?_⟩
  rw [hcached] at hd
  rcases ho with hnone | ho
  · rw [hnone] at hd
    cases hd
  · exact ho ▸ h.outcome d hd

theorem cached_patch {m : Measurement κ Value Base} (h : Described conv m) :
    Cached conv { m with cached := m.cached.map fun d ↦ { d with outcome := m.outcome.name } } := by
  refine ⟨⟨h.value, fun d hd ↦ ?_, fun d hd ↦ ?_⟩, fun d hd ↦ ?_⟩ <;>
    obtain ⟨d', hd', rfl⟩ := Option.map_eq_some_iff.mp hd
  · exact h.dict d' hd'
  · exact h.valueSet d' hd'
  · rfl

theorem keeps_setOutcome (o : MeasurementOutcome) :
    Keeps (Described conv) (setOutcome o : Stmt κ Value Base Unit) :=
  keeps_map fun _ h ↦ h.of_outcome rfl rfl rfl

/-- Whatever happens during the validation, the `finally` repairs the dict. -/
theorem validate_spec {s : Measuring κ Value Base} (h : Described conv s.measurement) :
    wp validate (fun _ s' ↦ Cached conv s'.measurement) (fun _ s' ↦ Cached conv s'.measurement) s := by
  have htry : Keeps (Described conv) (Act.catching
      (do
        let m ← Act.gets (·.measurement)
        if ← allValid m.validators then
          setOutcome .PASS
          if ← anyMarginal m.validators then
            Act.modify (Measuring.map fun m ↦ { m with marginal := true })
        else setOutcome .FAIL)
      fun e ↦ do
        if e.isException then setOutcome .FAIL
        Act.raise e : Stmt κ Value Base Unit) := by
    refine .catching (.bind .gets fun m ↦ .bind (keeps_of_same (same_allValid _)) fun valid ↦
      .ite (fun _ ↦ ?_) fun _ ↦ keeps_setOutcome _) fun e s hs ↦ ?_
    · refine .bind (keeps_setOutcome _) fun _ ↦ .bind (keeps_of_same (same_anyMarginal _)) fun b ↦ ?_
      exact .ite (fun _ ↦ keeps_map fun _ h ↦ h.of_outcome rfl rfl rfl) fun _ ↦ .pure
    · have hhandler : Keeps (Described conv) (do
          if e.isException then setOutcome .FAIL
          Act.raise e : Stmt κ Value Base Unit) :=
        .ite (fun _ ↦ .bind (keeps_setOutcome _) fun _ ↦ .raise fun _ hs ↦ hs) fun _ ↦
          .raise fun _ hs ↦ hs
      exact hhandler s hs
  rw [validate, wp_finally]
  refine (htry s h).mono (fun _ s' h' ↦ ?_) (fun _ s' h' ↦ ?_)
  · exact cached_patch h'
  · exact cached_patch h'

theorem notifyValueSet_spec {s : Measuring κ Value Base} (h : Cached conv s.measurement)
    (ho : s.measurement.dimensions ≠ [] → s.measurement.MayAssign .PARTIALLY_SET) :
    wp notifyValueSet (fun _ s' ↦ Cached conv s'.measurement)
      (fun _ s' ↦ Cached conv s'.measurement) s := by
  simp only [notifyValueSet, wp_bind, wp_gets, wp_ite]
  split
  · exact h.of_outcome rfl rfl rfl (ho ‹_›)
  · exact validate_spec h.toDescribed

/-! ## Setting values -/

theorem Cached.of_value {m : Measurement κ Value Base} (h : Cached conv m)
    {x : AnyMeasuredValue κ Value Base} (hx : x.Cached conv)
    (hset : m.measuredValue.isValueSet = true → x.isValueSet = true) :
    Cached conv { m with measuredValue := x } :=
  ⟨⟨hx, h.dict, fun d hd hd' ↦ hset (h.valueSet d hd hd')⟩, h.outcome⟩

theorem setPlain_spec {s : Measuring κ Value Base} (h : Cached conv s.measurement) {v : Value}
    (hconv : s.measurement.measuredValue.isValueSet = true →
      ∀ w, s.measurement.transformed s.moment v = .ok w → ∃ base, conv.value w = .ok base) :
    wp (setPlain conv v)
      (fun _ s' ↦ Cached conv s'.measurement ∧
        s'.measurement.toDeclaration = s.measurement.toDeclaration)
      (fun _ s' ↦ Cached conv s'.measurement) s := by
  simp only [setPlain, wp_bind, wp_gets]
  cases hm : s.measurement.measuredValue with
  | dimensioned d => exact h
  | plain m =>
      simp only [wp_bind, wp_transform]
      cases hw : s.measurement.transformed s.moment v with
      | error e => exact h
      | ok w =>
          simp only [wp_modify, wp_liftExcept]
          cases hbase : conv.value w with
          | ok base =>
              refine ⟨h.of_value (x := .plain ⟨some w, true, some base⟩) ?_ fun _ ↦ rfl, rfl⟩
              exact fun _ ↦ ⟨w, base, rfl, rfl, hbase⟩
          | error e =>
              -- Only a value that was not set before is left half set.
              have hunset : m.isValueSet = false := by
                by_contra hset
                obtain ⟨base, hbase'⟩ := hconv (by simpa [hm, AnyMeasuredValue.isValueSet] using hset) w hw
                simp [hbase] at hbase'
              exact h.of_value (x := .plain { m with storedValue := some w })
                (fun hset ↦ by simp [hunset] at hset)
                (fun hset ↦ by simpa [hm, AnyMeasuredValue.isValueSet] using hset)

theorem setItem_spec [DecidableEq κ] {s : Measuring κ Value Base} (h : Cached conv s.measurement)
    {v : Value} (hkeep : (Op.setItem v).KeepsCache conv s) :
    wp (setItem conv v) (fun _ s' ↦ Cached conv s'.measurement)
      (fun _ s' ↦ Cached conv s'.measurement) s := by
  simp only [setItem, wp_bind, wp_gets, wp_ite]
  split
  · exact h
  · rename_i hdims
    rw [ne_eq, not_not] at hdims
    refine (setPlain_spec h (hkeep hdims)).mono (fun _ s' h' ↦ ?_) fun _ _ h' ↦ h'
    refine (notifyValueSet_spec h'.1 fun hne ↦ absurd hdims (h'.2 ▸ hne)).mono (fun _ s'' h'' ↦ ?_)
      fun _ _ h'' ↦ h''
    exact h''.of_outcome rfl rfl rfl (.inr rfl)

variable [DecidableEq κ]

theorem cacheRow_eq_ok {d : DimensionedMeasuredValue κ Value Base} {key : κ} {v : Value}
    {r : Option (List Base)} (h : cacheRow conv d key v = .ok r) :
    r = none ∨ ∃ rows row, d.valueDict.any (·.1 = key) = false ∧
      d.cachedBasetypeValues = some rows ∧ conv.item key v = .ok row ∧ r = some (rows ++ [row]) := by
  unfold cacheRow at h
  split at h
  · exact .inl (by simpa using h.symm)
  · rename_i hany
    split at h
    · exact .inl (by simpa using h.symm)
    · rename_i rows hrows
      split at h
      · rename_i row hrow
        exact .inr ⟨rows, row, by rwa [Bool.not_eq_true] at hany, hrows, hrow, by simpa using h.symm⟩
      · cases h

theorem setCoordinates_spec {s : Measuring κ Value Base} (h : Cached conv s.measurement)
    {c : Coordinates κ} {v : Value}
    (hkeep : (Op.setCoordinatesDirectly c v).KeepsCache conv s) :
    wp (setCoordinates conv c v) (fun _ s' ↦ Cached conv s'.measurement)
      (fun _ s' ↦ Cached conv s'.measurement) s := by
  simp only [setCoordinates, wp_bind, wp_gets]
  cases hm : s.measurement.measuredValue with
  | plain m => exact h
  | dimensioned d =>
      simp only [wp_ite, wp_bind, wp_liftExcept, wp_modify]
      split
      · exact h
      split
      · exact h
      rename_i hlen hhash
      have hrows := hkeep d hm (by simpa using hlen) (by simpa using hhash)
      cases hr : cacheRow conv d c.key v with
      | error e => exact h
      | ok rows =>
          simp only [wp_transform, Measuring.mapValue_transformed, Measuring.mapValue_moment]
          have hcases := cacheRow_eq_ok hr
          cases hw : s.measurement.transformed s.moment v with
          | error e =>
              refine h.of_value (x := .dimensioned { d with cachedBasetypeValues := rows }) ?_
                fun hset ↦ by simpa [hm, AnyMeasuredValue.isValueSet] using hset
              rcases hcases with rfl | ⟨rows', row, hany, hrows', hrow, rfl⟩
              · exact fun _ hnone ↦ by cases hnone
              · obtain ⟨w, hw', -⟩ := hrows.row row rows' hany hrows' hrow
                simp [hw] at hw'
          | ok w =>
              let d' : DimensionedMeasuredValue κ Value Base :=
                { d with cachedBasetypeValues := rows, valueDict := dictSet c.key w d.valueDict }
              have hset : Cached conv { s.measurement with measuredValue := .dimensioned d' } := by
                refine h.of_value ?_ fun _ ↦ by
                  simpa [AnyMeasuredValue.isValueSet] using dictSet_ne_nil c.key w d.valueDict
                rcases hcases with rfl | ⟨rows', row, hany, hrows', hrow, rfl⟩
                · exact fun _ hnone ↦ by cases hnone
                · obtain ⟨w', hw', hrow'⟩ := hrows.row row rows' hany hrows' hrow
                  obtain rfl : w' = w := by simpa [hw] using hw'.symm
                  have hdict : convertItems conv d.valueDict = .ok rows' := by
                    have hvalue := h.value
                    rw [hm] at hvalue
                    exact hvalue _ hrows'
                  intro r hr'
                  obtain rfl : rows' ++ [row] = r := Option.some.inj hr'
                  change convertItems conv (dictSet c.key w' d.valueDict) = _
                  rw [dictSet_eq_append hany]
                  exact convertItems_concat hdict hrow'
              simp only [wp_pure]
              split
              · rename_i hnotify
                exact notifyValueSet_spec hset fun hdims ↦ hrows.outcome rows w hr hw hdims hnotify
              · exact hset

omit [DecidableEq κ]

theorem cached_setNotify {m : Measurement κ Value Base} (h : Cached conv m) (b : Bool) :
    Cached conv { m with measuredValue := setNotify b m.measuredValue } := by
  refine h.of_value ?_ fun hset ↦ ?_
  · have hvalue := h.value
    cases hm : m.measuredValue with
    | plain v => simpa [hm, setNotify] using hvalue
    | dimensioned d => simpa [hm, setNotify, AnyMeasuredValue.Cached] using hvalue
  · cases hm : m.measuredValue with
    | plain v => simpa [hm, setNotify] using hset
    | dimensioned d => simpa [hm, setNotify, AnyMeasuredValue.isValueSet] using hset

/-! ## Skipping and finalising -/

theorem setMeasurementOutcomeToSkipped_spec {s : Measuring κ Value Base}
    (h : Cached conv s.measurement)
    (hkeep : s.measurement.measuredValue.isValueSet = false → s.measurement.MayAssign .SKIPPED) :
    wp setMeasurementOutcomeToSkipped (fun _ s' ↦ Cached conv s'.measurement)
      (fun _ s' ↦ Cached conv s'.measurement) s := by
  simp only [setMeasurementOutcomeToSkipped, wp_bind, wp_gets, wp_ite]
  split
  · exact h
  · rename_i hset
    exact h.of_outcome rfl rfl rfl (hkeep (by rwa [Bool.not_eq_true] at hset))

theorem finalize_spec {s : Measuring κ Value Base} (h : Cached conv s.measurement)
    {phaseSkipped : Bool}
    (hkeep : phaseSkipped = true → s.measurement.outcome = .UNSET → s.measurement.cached = none) :
    wp (finalize phaseSkipped) (fun _ s' ↦ Cached conv s'.measurement)
      (fun _ s' ↦ Cached conv s'.measurement) s := by
  have hvalidate : Keeps (Cached conv) (Act.catching validate fun e ↦
      if e.isException then pure () else Act.raise e : Stmt κ Value Base Unit) := by
    refine .catching (fun s hs ↦ validate_spec hs.toDescribed) fun e s hs ↦ ?_
    rw [wp_ite]
    split
    · exact hs
    · exact hs
  have hrest : ∀ s' : Measuring κ Value Base, Cached conv s'.measurement →
      (if s'.measurement.outcome == .PARTIALLY_SET then
        wp (Act.catching validate fun e ↦ if e.isException then pure () else Act.raise e)
          (fun _ s' ↦ Cached conv s'.measurement) (fun _ s' ↦ Cached conv s'.measurement) s'
      else Cached conv s'.measurement) := by
    intro s' hs'
    split
    · exact hvalidate s' hs'
    · exact hs'
  simp only [finalize, setOutcome, wp_bind, wp_modify, wp_gets, wp_ite]
  split
  · rename_i hskip
    rw [Bool.and_eq_true, beq_iff_eq] at hskip
    refine hrest _ ?_
    exact Cached.of_outcome (cached_setNotify h false) rfl rfl rfl (.inl (hkeep hskip.1 hskip.2))
  · exact hrest _ (cached_setNotify h false)

/-! ## Reading -/

theorem Cached.eq_describe {m : Measurement κ Value Base} (h : Cached conv m) {d : BaseDict Base}
    (hd : m.cached = some d) : d = { m.describe with measuredValue := d.measuredValue } := by
  rw [← h.dict d hd, ← h.outcome d hd]

theorem cached_create {m : Measurement κ Value Base} (h : Cached conv m) :
    Cached conv { m with cached := some (m.cached.getD m.describe) } := by
  cases hc : m.cached with
  | some d =>
      rw [Option.getD_some, ← hc]
      exact h
  | none =>
      refine ⟨⟨h.value, fun d hd ↦ ?_, fun d hd hset ↦ ?_⟩, fun d hd ↦ ?_⟩ <;>
        obtain rfl := Option.some.inj hd
      · rfl
      · cases hset
      · rfl

theorem cached_putValue {m : Measurement κ Value Base} (h : Cached conv m)
    (hset : m.measuredValue.isValueSet = true) (value : Option (Base ⊕ List Base)) :
    Cached conv { m with cached := m.cached.map fun d ↦ { d with measuredValue := value } } := by
  refine ⟨⟨h.value, fun d hd ↦ ?_, fun _ _ _ ↦ hset⟩, fun d hd ↦ ?_⟩ <;>
    obtain ⟨d', hd', rfl⟩ := Option.map_eq_some_iff.mp hd
  · exact h.dict d' hd'
  · exact h.outcome d' hd'

theorem basetypeValue_spec {s : Measuring κ Value Base} (h : Cached conv s.measurement)
    (hset : s.measurement.measuredValue.isValueSet = true) :
    wp (basetypeValue conv)
      (fun value s' ↦ Cached conv s'.measurement ∧
        s'.measurement.cached = s.measurement.cached ∧
        s'.measurement.measuredValue.isValueSet = true ∧
        ∃ x base, s.measurement.measuredValue.value = .ok x ∧
          convertMeasured conv x = .ok base ∧ value = some base)
      (fun e s' ↦ Cached conv s'.measurement ∧
        ∃ x, s.measurement.measuredValue.value = .ok x ∧ convertMeasured conv x = .error e) s := by
  simp only [basetypeValue, wp_bind, wp_gets]
  have hvalue := h.value
  cases hm : s.measurement.measuredValue with
  | plain v =>
      obtain ⟨stored, isSet, cachedValue⟩ := v
      rw [hm] at hvalue hset
      obtain rfl : isSet = true := hset
      obtain ⟨x, base, rfl, rfl, hbase⟩ := hvalue rfl
      refine ⟨h, rfl, by rw [hm]; rfl, .value x, .inl base, rfl, ?_, rfl⟩
      simp [convertMeasured, hbase, Except.map]
  | dimensioned d =>
      obtain ⟨numDimensions, notify, items, rows⟩ := d
      rw [hm] at hvalue hset
      cases items with
      | nil => cases hset
      | cons item items =>
          cases rows with
          | some rows =>
              refine ⟨h, rfl, by rw [hm]; rfl, .items (item :: items), .inr rows, rfl, ?_, rfl⟩
              simp [convertMeasured, hvalue rows rfl, Except.map]
          | none =>
              simp only [wp_bind, wp_liftExcept]
              cases hrows : convertItems conv (item :: items) with
              | error e => exact ⟨h, .items (item :: items), rfl, by simp [convertMeasured, hrows, Except.map]⟩
              | ok rows =>
                  refine ⟨?_, rfl, rfl, .items (item :: items), .inr rows, rfl, ?_, rfl⟩
                  · exact h.of_value (fun _ hr ↦ Option.some.inj hr ▸ hrows) fun _ ↦ rfl
                  · simp [convertMeasured, hrows, Except.map]

theorem asBaseTypes_spec {s : Measuring κ Value Base} (h : Cached conv s.measurement) :
    wp (asBaseTypes conv)
      (fun d s' ↦ s.measurement.baseTypes conv = .ok d ∧ Cached conv s'.measurement)
      (fun e s' ↦ s.measurement.baseTypes conv = .error e ∧ Cached conv s'.measurement) s := by
  have hcreate := cached_create h
  simp only [asBaseTypes, wp_bind, wp_modify, wp_gets, wp_ite]
  split
  · rename_i hset
    refine (basetypeValue_spec hcreate hset).mono (fun value s' h' ↦ ?_) (fun e s' h' ↦ ?_)
    · obtain ⟨hs', hcached, hset', x, base, hx, hbase, rfl⟩ := h'
      refine ⟨?_, cached_putValue hs' hset' _⟩
      simp only [Measuring.map] at hset hx hcached ⊢
      simp only [hcached, Measurement.baseTypes, hset, if_true, hx, bind, Except.bind, hbase, pure,
        Except.pure, Option.map_some, Option.getD_some]
      cases hc : s.measurement.cached with
      | none => rfl
      | some d => rw [Option.getD_some, h.eq_describe hc]
    · obtain ⟨hs', x, hx, he⟩ := h'
      simp only [Measuring.map] at hset hx
      exact ⟨by simp [Measurement.baseTypes, hset, hx, bind, Except.bind, he], hs'⟩
  · rename_i hset
    rw [Bool.not_eq_true] at hset
    simp only [Measuring.map] at hset ⊢
    refine ⟨?_, hcreate⟩
    simp only [Measurement.baseTypes, hset, Bool.false_eq_true, if_false, pure, Except.pure]
    cases hc : s.measurement.cached with
    | none => rfl
    | some d =>
        have hnone : d.measuredValue = none := by
          by_contra hsome
          have := h.valueSet d hc (Option.isSome_iff_ne_none.mpr hsome)
          simp [hset] at this
        rw [Option.getD_some, Option.getD_some, h.eq_describe hc, hnone]
        rfl

/-! ## Runs -/

theorem cached_declaration (d : Declaration κ Value) :
    Cached conv (d.measurement : Measurement κ Value Base) := by
  refine ⟨⟨?_, nofun, nofun⟩, nofun⟩
  simp only [Declaration.measurement, Declaration.initializeValue]
  split
  · exact fun hset ↦ by cases hset
  · intro rows hrows
    obtain rfl := Option.some.inj hrows
    rfl

section Runs

variable [DecidableEq κ]

theorem cached_step {op : Op κ Value} {s : Measuring κ Value Base} (h : Cached conv s.measurement)
    (hkeep : op.KeepsCache conv s) : Cached conv (op.step conv s).measurement := by
  refine (wp_same (P := fun s : Measuring κ Value Base ↦ Cached conv s.measurement)).mp ?_
  cases op with
  | setItem v => exact setItem_spec h hkeep
  | setCoordinates c v =>
      simp only [Op.execute, collectionSetCoordinates, wp_bind, wp_modify]
      refine setCoordinates_spec (cached_setNotify h true) fun d hd hlen hhash ↦ ?_
      cases hm : s.measurement.measuredValue with
      | plain v' => simp [Measuring.mapValue, Measuring.map, hm, setNotify] at hd
      | dimensioned d' =>
          obtain rfl : { d' with notifyValueSet := true } = d := by
            simpa [Measuring.mapValue, Measuring.map, hm, setNotify] using hd
          have hrows := hkeep d' hm hlen hhash
          exact ⟨hrows.row, hrows.outcome⟩
  | setCoordinatesDirectly c v => exact setCoordinates_spec h hkeep
  | skip => exact setMeasurementOutcomeToSkipped_spec h hkeep
  | validate => exact validate_spec h.toDescribed
  | finalize phaseSkipped => exact finalize_spec h hkeep
  | asBaseTypes =>
      simp only [Op.execute, wp_bind, wp_pure]
      exact (asBaseTypes_spec h).mono (fun _ _ h' ↦ h'.2) fun _ _ h' ↦ h'.2

theorem cached_run {ops : List (Op κ Value)} {s : Measuring κ Value Base}
    (h : Cached conv s.measurement) (hkeep : RunKeepsCache conv ops s) :
    Cached conv (run conv ops s).measurement := by
  induction ops generalizing s with
  | nil => exact h
  | cons op ops ih => exact ih (cached_step h hkeep.1) hkeep.2

/-- In every run from the declaration of a measurement whose steps all keep the
cache, `as_base_types` gives what is built from scratch. -/
theorem asBaseTypes_agrees (conv : Conversion κ Value Base) (d : Declaration κ Value) (moment : ℕ)
    (ops : List (Op κ Value)) (hkeep : RunKeepsCache conv ops ⟨d.measurement, moment⟩) :
    CacheAgrees conv (run conv ops ⟨d.measurement, moment⟩) := by
  have hspec := asBaseTypes_spec (cached_run (cached_declaration d) hkeep)
  unfold CacheAgrees
  rcases hr : asBaseTypes conv (run conv ops ⟨d.measurement, moment⟩) with ⟨e | dict, s'⟩
  · exact (hspec.of_error hr).1.symm
  · exact (hspec.of_ok hr).1.symm

end Runs

/-! ## The defect -/

/-- A measurement of natural numbers without validators, and their conversion. -/
def plainDeclaration : Declaration ℕ ℕ := { name := "voltage" }

def idConversion : Conversion ℕ ℕ ℕ := ⟨.ok, fun key v ↦ .ok (key + v)⟩

theorem asBaseTypes_agrees_set : CacheAgrees idConversion
    (run idConversion [.asBaseTypes, .setItem 5, .validate, .asBaseTypes, .setItem 7]
      ⟨plainDeclaration.measurement, 1⟩) :=
  asBaseTypes_agrees idConversion plainDeclaration 1 _ (by
    simp [RunKeepsCache, Op.KeepsCache, idConversion])

/-- `set_measurement_outcome_to_skipped` after a first reading. -/
theorem not_cacheAgrees_skipped : ¬CacheAgrees idConversion
    (run idConversion [.asBaseTypes, .skip] ⟨plainDeclaration.measurement, 1⟩) := by
  intro h
  have houtcome := congrArg (fun r ↦ r.toOption.map (·.outcome)) h
  revert houtcome
  decide

end OpenHtf.Measurements
