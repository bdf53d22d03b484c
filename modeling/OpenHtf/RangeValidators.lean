import Mathlib.Algebra.Order.Field.Rat
import Mathlib.Tactic.Linarith
import OpenHtf.Lib.ExceptMap

/-!
# Range validators and their marginal bands

The range validators of `util.validators` for exact rational numbers, without
type converters.  Each publishes four limits, some of which may be absent, and
says of a value whether it is marginal.
-/

set_option autoImplicit false

namespace OpenHtf.Validators

inductive ValidatorError where
  | ValueError (message : String)
  | TypeError
  deriving DecidableEq

/-! ## Limits -/

/-- The limits of a `RangeValidatorBase`; `none` is `None`. -/
structure Limits where
  minimum : Option ℚ := none
  maximum : Option ℚ := none
  marginalMinimum : Option ℚ := none
  marginalMaximum : Option ℚ := none

/-- Both limits are numbers, and the first is greater. -/
def exceeds : Option ℚ → Option ℚ → Bool
  | some a, some b => decide (b < a)
  | _, _ => false

/-- The checks that the constructors of `AllInRangeValidator` and `InRange` make. -/
def Limits.check (l : Limits) : Except ValidatorError Unit :=
  if l.minimum.isNone && l.maximum.isNone then
    .error (.ValueError "Must specify minimum, maximum, or both")
  else if exceeds l.minimum l.maximum then
    .error (.ValueError "Minimum cannot be greater than maximum")
  else if l.marginalMinimum.isSome && l.minimum.isNone then
    .error (.ValueError "Marginal minimum was specified without a minimum")
  else if l.marginalMaximum.isSome && l.maximum.isNone then
    .error (.ValueError "Marginal maximum was specified without a maximum")
  else if exceeds l.minimum l.marginalMinimum then
    .error (.ValueError "Marginal minimum cannot be less than the minimum")
  else if exceeds l.marginalMaximum l.maximum then
    .error (.ValueError "Marginal maximum cannot be greater than the maximum")
  else if exceeds l.marginalMinimum l.marginalMaximum then
    .error (.ValueError "Marginal minimum cannot be greater than the marginal maximum")
  else .ok ()

structure AcceptedLimits extends Limits where
  accepted : toLimits.check = .ok ()

def AcceptedLimits.new (l : Limits) : Except ValidatorError AcceptedLimits :=
  match h : l.check with
  | .ok () => .ok { toLimits := l, accepted := h }
  | .error e => .error e

/-! ## Comparisons -/

/-- `a <= b`; `None` cannot be compared. -/
def le : Option ℚ → Option ℚ → Except ValidatorError Bool
  | some a, some b => .ok (decide (a ≤ b))
  | _, _ => .error .TypeError

def lt : Option ℚ → Option ℚ → Except ValidatorError Bool
  | some a, some b => .ok (decide (a < b))
  | _, _ => .error .TypeError

/-- `x and y`, which also joins the comparisons of a chain. -/
def and' (x y : Except ValidatorError Bool) : Except ValidatorError Bool :=
  x.bind fun b ↦ if b then y else .ok false

def or' (x y : Except ValidatorError Bool) : Except ValidatorError Bool :=
  x.bind fun b ↦ if b then .ok true else y

/-- `limit is not None and x`. -/
def ifSet (limit : Option ℚ) (x : Except ValidatorError Bool) : Except ValidatorError Bool :=
  if limit.isSome then x else .ok false

/-! ## The validators -/

structure AllInRangeValidator extends AcceptedLimits

namespace AllInRangeValidator

def new (l : Limits) : Except ValidatorError AllInRangeValidator :=
  (AcceptedLimits.new l).map AllInRangeValidator.mk

def isMarginal (v : AllInRangeValidator) (values : List ℚ) : Except ValidatorError Bool := do
  let isMaximallyMarginal ← ifSet v.marginalMaximum do
    let marginal ← values.mapM fun value ↦ and' (le v.marginalMaximum (some value)) (le (some value) v.maximum)
    pure (marginal.any id)
  let isMinimallyMarginal ← ifSet v.marginalMinimum do
    let marginal ← values.mapM fun value ↦ and' (le v.minimum (some value)) (le (some value) v.marginalMinimum)
    pure (marginal.any id)
  pure (isMaximallyMarginal || isMinimallyMarginal)

end AllInRangeValidator

structure InRange extends AcceptedLimits

namespace InRange

def new (l : Limits) : Except ValidatorError InRange :=
  (AcceptedLimits.new l).map InRange.mk

/-- `__call__`; no rational number is NaN. -/
def call (v : InRange) (value : Option ℚ) : Bool :=
  match value with
  | none => false
  | some x => !exceeds v.minimum (some x) && !exceeds (some x) v.maximum

def isMarginal (v : InRange) (value : Option ℚ) : Except ValidatorError Bool :=
  match value with
  | none => .ok false
  | some _ =>
    or' (ifSet v.marginalMinimum (and' (le v.minimum value) (le value v.marginalMinimum)))
      (ifSet v.marginalMaximum (and' (le value v.maximum) (le v.marginalMaximum value)))

end InRange

structure WithinPercent where
  expected : ℚ
  percent : ℚ
  marginalPercent : Option ℚ
  percent_nonneg : 0 ≤ percent
  marginal_lt : ∀ m ∈ marginalPercent, m < percent

namespace WithinPercent

def new (expected percent : ℚ) (marginalPercent : Option ℚ) : Except ValidatorError WithinPercent :=
  if h : percent < 0 then
    .error (.ValueError s!"percent argument is {percent}, must be >0")
  else
    match marginalPercent with
    | none => .ok ⟨expected, percent, none, le_of_not_gt h, nofun⟩
    | some marginal =>
      if h' : percent ≤ marginal then
        .error (.ValueError s!"marginal_percent argument is {marginal}, must be < {percent} percent")
      else
        .ok ⟨expected, percent, some marginal, le_of_not_gt h,
          fun _ hm ↦ Option.some.inj hm ▸ lt_of_not_ge h'⟩

def appliedPercent (v : WithinPercent) : ℚ := |v.expected * v.percent / 100|

/-- Neither `None` nor zero is true. -/
def appliedMarginalPercent (v : WithinPercent) : ℚ :=
  match v.marginalPercent with
  | none => 0
  | some marginal => if marginal = 0 then 0 else |v.expected * marginal / 100|

def minimum (v : WithinPercent) : ℚ := v.expected - v.appliedPercent

def maximum (v : WithinPercent) : ℚ := v.expected + v.appliedPercent

def hasMarginal (v : WithinPercent) : Bool :=
  match v.marginalPercent with
  | none => false
  | some marginal => marginal ≠ 0

def marginalMinimum (v : WithinPercent) : Option ℚ :=
  if v.hasMarginal then some (v.expected - v.appliedMarginalPercent) else none

def marginalMaximum (v : WithinPercent) : Option ℚ :=
  if v.hasMarginal then some (v.expected + v.appliedMarginalPercent) else none

def limits (v : WithinPercent) : Limits where
  minimum := some v.minimum
  maximum := some v.maximum
  marginalMinimum := v.marginalMinimum
  marginalMaximum := v.marginalMaximum

def call (v : WithinPercent) (value : ℚ) : Bool := decide (v.minimum ≤ value) && decide (value ≤ v.maximum)

def isMarginal (v : WithinPercent) (value : ℚ) : Except ValidatorError Bool :=
  if v.marginalPercent.isNone then .ok false
  else
    or' (and' (lt (some v.minimum) (some value)) (le (some value) v.marginalMinimum))
      (and' (le v.marginalMaximum (some value)) (lt (some value) (some v.maximum)))

end WithinPercent

/-! ## Bands -/

/-- The value lies in the closed band, and both ends of the band are set. -/
def InBand (low high : Option ℚ) (x : ℚ) : Prop := ∃ a ∈ low, ∃ b ∈ high, a ≤ x ∧ x ≤ b

/-- The value lies in one of the marginal bands that the limits publish. -/
def Limits.InBands (l : Limits) (x : ℚ) : Prop :=
  InBand l.minimum l.marginalMinimum x ∨ InBand l.marginalMaximum l.maximum x

/-- `is_marginal` does not raise, and is true in the bands only. -/
def Decides (isMarginal : Except ValidatorError Bool) (inBands : Prop) : Prop :=
  ∃ b, isMarginal = .ok b ∧ (b = true ↔ inBands)

/-- `is_marginal` decides the bands, and what is marginal passes the validator. -/
structure BandsCorrect (l : Limits) (call : Bool) (isMarginal : Except ValidatorError Bool) (x : ℚ) :
    Prop where
  decides : Decides isMarginal (l.InBands x)
  passes : isMarginal = .ok true → call = true

/-! ## Tests that do not raise -/

section Decides

variable {x y : Except ValidatorError Bool} {p q : Prop}

theorem decides_ok {b : Bool} : Decides (.ok b) p ↔ (b = true ↔ p) := by
  constructor
  · rintro ⟨_, ⟨⟩, h⟩
    exact h
  · exact fun h ↦ ⟨b, rfl, h⟩

theorem decides_le (a b : ℚ) : Decides (le (some a) (some b)) (a ≤ b) :=
  decides_ok.mpr decide_eq_true_iff

theorem decides_lt (a b : ℚ) : Decides (lt (some a) (some b)) (a < b) :=
  decides_ok.mpr decide_eq_true_iff

theorem Decides.and' (hx : Decides x p) (hy : Decides y q) : Decides (and' x y) (p ∧ q) := by
  obtain ⟨b, rfl, hb⟩ := hx
  cases b with
  | false =>
      have hp : ¬p := fun h ↦ by simpa using hb.mpr h
      exact decides_ok.mpr (by simp [hp])
  | true =>
      have hp : p := hb.mp rfl
      simpa [Validators.and', Except.bind, hp] using hy

theorem Decides.or' (hx : Decides x p) (hy : Decides y q) : Decides (or' x y) (p ∨ q) := by
  obtain ⟨b, rfl, hb⟩ := hx
  cases b with
  | false =>
      have hp : ¬p := fun h ↦ by simpa using hb.mpr h
      simpa [Validators.or', Except.bind, hp] using hy
  | true =>
      have hp : p := hb.mp rfl
      exact decides_ok.mpr (by simp [hp])

theorem Decides.bind_or (hx : Decides x p) (hy : Decides y q) :
    Decides (x >>= fun a ↦ y >>= fun b ↦ pure (a || b)) (p ∨ q) := by
  obtain ⟨a, rfl, ha⟩ := hx
  obtain ⟨b, rfl, hb⟩ := hy
  refine decides_ok.mpr ?_
  rw [Bool.or_eq_true, ha, hb]

theorem Decides.congr (hx : Decides x p) (hpq : p ↔ q) : Decides x q := by
  obtain ⟨b, rfl, hb⟩ := hx
  exact decides_ok.mpr (hb.trans hpq)

theorem Decides.eq_true_iff (hx : Decides x p) : x = .ok true ↔ p := by
  obtain ⟨b, rfl, hb⟩ := hx
  rw [← hb]
  simp

/-- `any` of a list of tests. -/
theorem decides_any {xs : List ℚ} {f : ℚ → Except ValidatorError Bool} {p : ℚ → Prop}
    (hf : ∀ x, Decides (f x) (p x)) :
    Decides (xs.mapM f >>= fun marginal ↦ pure (marginal.any id)) (∃ x ∈ xs, p x) := by
  choose g hg hp using hf
  have hall : List.Forall₂ (Returned f) xs (xs.map g) := by
    rw [List.forall₂_map_right_iff]
    exact List.forall₂_same.mpr fun x _ ↦ hg x
  rw [mapM_eq_ok_iff.mpr hall]
  refine decides_ok.mpr ?_
  simp [hp]

end Decides

/-! ## What the constructors accept -/

/-- The limits that are set are in order, and a marginal limit has its limit. -/
structure Limits.WellOrdered (l : Limits) : Prop where
  range : ∀ a ∈ l.minimum, ∀ b ∈ l.maximum, a ≤ b
  marginalMinimum : ∀ m ∈ l.marginalMinimum, ∃ a ∈ l.minimum, a ≤ m
  marginalMaximum : ∀ m ∈ l.marginalMaximum, ∃ b ∈ l.maximum, m ≤ b
  marginal : ∀ m ∈ l.marginalMinimum, ∀ m' ∈ l.marginalMaximum, m ≤ m'

theorem exceeds_eq_false_iff {low high : Option ℚ} :
    exceeds low high = false ↔ ∀ a ∈ low, ∀ b ∈ high, a ≤ b := by
  cases low with
  | none => simp [exceeds]
  | some a =>
      cases high with
      | none => simp [exceeds]
      | some b => simp [exceeds]

theorem Limits.wellOrdered_of_accepted {l : Limits} (h : l.check = .ok ()) : l.WellOrdered := by
  unfold Limits.check at h
  split_ifs at h with hset hrange hminimum hmaximum hmarginalMinimum hmarginalMaximum hmarginal
  simp only [Bool.not_eq_true] at hrange hminimum hmaximum hmarginalMinimum hmarginalMaximum hmarginal
  rw [exceeds_eq_false_iff] at hrange hmarginalMinimum hmarginalMaximum hmarginal
  refine ⟨hrange, fun m hm ↦ ?_, fun m hm ↦ ?_, hmarginal⟩
  · cases ha : l.minimum with
    | none => simp [Option.mem_def.mp hm, ha] at hminimum
    | some a => exact ⟨a, rfl, hmarginalMinimum a ha m hm⟩
  · cases hb : l.maximum with
    | none => simp [Option.mem_def.mp hm, hb] at hmaximum
    | some b => exact ⟨b, rfl, hmarginalMaximum m hm b hb⟩

/-! ## `InRange` and `AllInRangeValidator` -/

theorem inBand_some {a b x : ℚ} : InBand (some a) (some b) x ↔ a ≤ x ∧ x ≤ b := by
  simp [InBand]

theorem decides_minimumBand {l : Limits} (h : l.WellOrdered) (x : ℚ) :
    Decides (ifSet l.marginalMinimum (and' (le l.minimum (some x)) (le (some x) l.marginalMinimum)))
      (InBand l.minimum l.marginalMinimum x) := by
  cases hm : l.marginalMinimum with
  | none => exact decides_ok.mpr (by simp [InBand])
  | some m =>
      obtain ⟨a, ha, -⟩ := h.marginalMinimum m hm
      rw [Option.mem_def.mp ha, inBand_some]
      exact (decides_le a x).and' (decides_le x m)

theorem decides_maximumBand {l : Limits} (h : l.WellOrdered) (x : ℚ) :
    Decides (ifSet l.marginalMaximum (and' (le (some x) l.maximum) (le l.marginalMaximum (some x))))
      (InBand l.marginalMaximum l.maximum x) := by
  cases hm : l.marginalMaximum with
  | none => exact decides_ok.mpr (by simp [InBand])
  | some m =>
      obtain ⟨b, hb, -⟩ := h.marginalMaximum m hm
      rw [Option.mem_def.mp hb, inBand_some]
      exact ((decides_le x b).and' (decides_le m x)).congr and_comm

theorem decides_inRange (v : InRange) (x : ℚ) :
    Decides (v.isMarginal (some x)) (v.toLimits.InBands x) := by
  have hordered := Limits.wellOrdered_of_accepted v.accepted
  exact (decides_minimumBand hordered x).or' (decides_maximumBand hordered x)

theorem call_inRange (v : InRange) (x : ℚ) :
    v.call (some x) = true ↔ (∀ a ∈ v.minimum, a ≤ x) ∧ ∀ b ∈ v.maximum, x ≤ b := by
  simp only [InRange.call, Bool.and_eq_true, Bool.not_eq_true', exceeds_eq_false_iff]
  simp

/-- The band of a marginal limit whose opposite is not set may go beyond the
opposite limit. -/
theorem inRange_correct_iff (v : InRange) (x : ℚ) :
    BandsCorrect v.toLimits (v.call (some x)) (v.isMarginal (some x)) x ↔
      (∀ m ∈ v.marginalMinimum, ∀ b ∈ v.maximum, ¬(b < x ∧ x ≤ m)) ∧
        ∀ m ∈ v.marginalMaximum, ∀ a ∈ v.minimum, ¬(m ≤ x ∧ x < a) := by
  have hordered := Limits.wellOrdered_of_accepted v.accepted
  have hdecides := decides_inRange v x
  have hcorrect : BandsCorrect v.toLimits (v.call (some x)) (v.isMarginal (some x)) x ↔
      (v.toLimits.InBands x → (∀ a ∈ v.minimum, a ≤ x) ∧ ∀ b ∈ v.maximum, x ≤ b) := by
    rw [← hdecides.eq_true_iff, ← call_inRange]
    exact ⟨fun h ↦ h.passes, fun h ↦ ⟨hdecides, h⟩⟩
  rw [hcorrect]
  constructor
  · intro hpasses
    refine ⟨?_, ?_⟩
    · rintro m hm b hb ⟨hbx, hxm⟩
      obtain ⟨a, ha, -⟩ := hordered.marginalMinimum m hm
      have hax : a ≤ x := (hordered.range a ha b hb).trans hbx.le
      have hxb := (hpasses (.inl ⟨a, ha, m, hm, hax, hxm⟩)).2 b hb
      exact absurd hbx (not_lt.mpr hxb)
    · rintro m hm a ha ⟨hmx, hxa⟩
      obtain ⟨b, hb, -⟩ := hordered.marginalMaximum m hm
      have hxb : x ≤ b := hxa.le.trans (hordered.range a ha b hb)
      have hax := (hpasses (.inr ⟨m, hm, b, hb, hmx, hxb⟩)).1 a ha
      exact absurd hxa (not_lt.mpr hax)
  · rintro ⟨hlow, hhigh⟩ (⟨a, ha, m, hm, hax, hxm⟩ | ⟨m, hm, b, hb, hmx, hxb⟩)
    · refine ⟨fun a' ha' ↦ ?_, fun b hb ↦ ?_⟩
      · rwa [Option.mem_unique ha' ha]
      · exact not_lt.mp fun hbx ↦ hlow m hm b hb ⟨hbx, hxm⟩
    · refine ⟨fun a ha ↦ ?_, fun b' hb' ↦ ?_⟩
      · exact not_lt.mp fun hxa ↦ hhigh m hm a ha ⟨hmx, hxa⟩
      · rwa [Option.mem_unique hb' hb]

/-- `any` of the tests for a band, which has values only if its marginal limit is set. -/
theorem decides_anyInBand {limit : Option ℚ} {f : ℚ → Except ValidatorError Bool} {p : ℚ → Prop}
    (hnone : limit = none → ∀ x, ¬p x) (hf : ∀ m ∈ limit, ∀ x, Decides (f x) (p x)) (values : List ℚ) :
    Decides (ifSet limit (values.mapM f >>= fun marginal ↦ pure (marginal.any id))) (∃ x ∈ values, p x) := by
  cases limit with
  | none => exact decides_ok.mpr (by simp [hnone rfl])
  | some m => exact decides_any (hf m rfl)

theorem decides_allInRange (v : AllInRangeValidator) (values : List ℚ) :
    Decides (v.isMarginal values) (∃ x ∈ values, v.toLimits.InBands x) := by
  have hordered := Limits.wellOrdered_of_accepted v.accepted
  have hmaximum (m) (hm : m ∈ v.marginalMaximum) (x : ℚ) :
      Decides (and' (le v.marginalMaximum (some x)) (le (some x) v.maximum))
        (InBand v.marginalMaximum v.maximum x) := by
    obtain ⟨b, hb, -⟩ := hordered.marginalMaximum m hm
    rw [Option.mem_def.mp hm, Option.mem_def.mp hb, inBand_some]
    exact (decides_le m x).and' (decides_le x b)
  have hminimum (m) (hm : m ∈ v.marginalMinimum) (x : ℚ) :
      Decides (and' (le v.minimum (some x)) (le (some x) v.marginalMinimum))
        (InBand v.minimum v.marginalMinimum x) := by
    obtain ⟨a, ha, -⟩ := hordered.marginalMinimum m hm
    rw [Option.mem_def.mp hm, Option.mem_def.mp ha, inBand_some]
    exact (decides_le a x).and' (decides_le x m)
  have hbands := (decides_anyInBand (fun h x ↦ by simp [InBand, h]) hmaximum values).bind_or
    (decides_anyInBand (fun h x ↦ by simp [InBand, h]) hminimum values)
  refine hbands.congr ?_
  simp only [Limits.InBands, and_or_left, exists_or]
  exact or_comm

/-! ## `WithinPercent` -/

theorem WithinPercent.appliedMarginalPercent_nonneg (v : WithinPercent) : 0 ≤ v.appliedMarginalPercent := by
  unfold appliedMarginalPercent
  split
  · exact le_rfl
  · split
    · exact le_rfl
    · exact abs_nonneg _

/-- Around `e`, the bands that leave out the limits agree with those that have them
away from the limits, or when there are no bands. -/
theorem openBands_iff {e p m x : ℚ} (hm : 0 ≤ m) :
    ((e - p < x ∧ x ≤ e - m ∨ e + m ≤ x ∧ x < e + p) ↔
        (e - p ≤ x ∧ x ≤ e - m ∨ e + m ≤ x ∧ x ≤ e + p)) ↔
      (x ≠ e - p ∧ x ≠ e + p ∨ p < m) := by
  constructor
  · intro h
    by_contra hnot
    push Not at hnot
    obtain ⟨hlimit, hmp⟩ := hnot
    by_cases hlow : x = e - p
    · rcases h.mpr (.inl ⟨hlow.ge, by linarith⟩) with ⟨hlt, -⟩ | ⟨hge, hlt⟩
      · linarith
      · linarith
    · have hhigh := hlimit hlow
      rcases h.mpr (.inr ⟨by linarith, hhigh.le⟩) with ⟨hlt, hle⟩ | ⟨-, hlt⟩
      · linarith
      · linarith
  · rintro (⟨hlow, hhigh⟩ | hpm)
    · have hlow' : e - p < x ↔ e - p ≤ x := ⟨le_of_lt, fun h ↦ lt_of_le_of_ne h (Ne.symm hlow)⟩
      have hhigh' : x < e + p ↔ x ≤ e + p := ⟨le_of_lt, fun h ↦ lt_of_le_of_ne h hhigh⟩
      rw [hlow', hhigh']
    · refine iff_of_false ?_ ?_
      · rintro (⟨h, h'⟩ | ⟨h, h'⟩) <;> linarith
      · rintro (⟨h, h'⟩ | ⟨h, h'⟩) <;> linarith

namespace WithinPercent

variable (v : WithinPercent) (x : ℚ)

theorem isMarginal_of_zero (h : v.marginalPercent = some 0) : v.isMarginal x = .error .TypeError := by
  have hmarginal : v.hasMarginal = false := by simp [hasMarginal, h]
  simp only [isMarginal, h, marginalMinimum, marginalMaximum, hmarginal, lt, le, and', or']
  by_cases hlt : v.minimum < x <;> simp [Except.bind, hlt]

theorem decides_isMarginal (h : v.hasMarginal = true) :
    Decides (v.isMarginal x)
      (v.minimum < x ∧ x ≤ v.expected - v.appliedMarginalPercent ∨
        v.expected + v.appliedMarginalPercent ≤ x ∧ x < v.maximum) := by
  have hset : v.marginalPercent.isNone = false := by
    unfold hasMarginal at h
    split at h
    · cases h
    · rename_i hm
      rw [hm]
      rfl
  simp only [isMarginal, hset, marginalMinimum, marginalMaximum, h, if_true]
  exact ((decides_lt _ x).and' (decides_le x _)).or' ((decides_le _ x).and' (decides_lt x _))

theorem inBands_iff (h : v.hasMarginal = true) :
    v.limits.InBands x ↔
      (v.minimum ≤ x ∧ x ≤ v.expected - v.appliedMarginalPercent ∨
        v.expected + v.appliedMarginalPercent ≤ x ∧ x ≤ v.maximum) := by
  simp only [Limits.InBands, limits, marginalMinimum, marginalMaximum, h, if_true, inBand_some]

theorem appliedPercent_nonneg : 0 ≤ v.appliedPercent := abs_nonneg _

/-- What is marginal is on its side of the expected value, and so in the range. -/
theorem call_of_isMarginal (h : v.hasMarginal = true) (hmarginal : v.isMarginal x = .ok true) :
    v.call x = true := by
  have hp := v.appliedPercent_nonneg
  have hm := v.appliedMarginalPercent_nonneg
  have hband := (v.decides_isMarginal x h).eq_true_iff.mp hmarginal
  simp only [minimum, maximum] at hband
  rw [call, Bool.and_eq_true, decide_eq_true_iff, decide_eq_true_iff, minimum, maximum]
  rcases hband with ⟨hlow, hhigh⟩ | ⟨hlow, hhigh⟩
  · exact ⟨hlow.le, by linarith⟩
  · exact ⟨by linarith, hhigh.le⟩

end WithinPercent

/-- The ends of the bands at the limits are left out, though the limits belong to the
range, and a marginal percentage of zero has no bands to compare with. -/
theorem withinPercent_correct_iff (v : WithinPercent) (x : ℚ) :
    BandsCorrect v.limits (v.call x) (v.isMarginal x) x ↔
      v.marginalPercent = none ∨ v.marginalPercent ≠ some 0 ∧
        (x ≠ v.minimum ∧ x ≠ v.maximum ∨ v.appliedPercent < v.appliedMarginalPercent) := by
  cases hpercent : v.marginalPercent with
  | none =>
      refine iff_of_true ⟨?_, ?_⟩ (.inl rfl)
      · refine ⟨false, by simp [WithinPercent.isMarginal, hpercent], ?_⟩
        simp [Limits.InBands, InBand, WithinPercent.limits, WithinPercent.marginalMinimum,
          WithinPercent.marginalMaximum, WithinPercent.hasMarginal, hpercent]
      · simp [WithinPercent.isMarginal, hpercent]
  | some marginal =>
      by_cases hzero : marginal = 0
      · subst hzero
        refine iff_of_false (fun h ↦ ?_) (by simp)
        obtain ⟨b, hb, -⟩ := h.decides
        rw [v.isMarginal_of_zero x hpercent] at hb
        cases hb
      · have hmarginal : v.hasMarginal = true := by simp [WithinPercent.hasMarginal, hpercent, hzero]
        have hdecides := v.decides_isMarginal x hmarginal
        have hcorrect : BandsCorrect v.limits (v.call x) (v.isMarginal x) x ↔
            (v.isMarginal x = .ok true ↔ v.limits.InBands x) := by
          constructor
          · exact fun h ↦ h.decides.eq_true_iff
          · exact fun h ↦ ⟨hdecides.congr (hdecides.eq_true_iff.symm.trans h), v.call_of_isMarginal x hmarginal⟩
        rw [hcorrect, hdecides.eq_true_iff, v.inBands_iff x hmarginal]
        simp only [WithinPercent.minimum, WithinPercent.maximum]
        rw [openBands_iff v.appliedMarginalPercent_nonneg]
        simp [hzero]

/-! ## The result -/

/-- A validator and what `is_marginal` is asked about. -/
inductive MarginalTest where
  | allInRange (v : AllInRangeValidator) (values : List ℚ)
  | inRange (v : InRange) (x : ℚ)
  | withinPercent (v : WithinPercent) (x : ℚ)

namespace MarginalTest

def Correct : MarginalTest → Prop
  | allInRange v values => Decides (v.isMarginal values) (∃ x ∈ values, v.toLimits.InBands x)
  | inRange v x => BandsCorrect v.toLimits (v.call (some x)) (v.isMarginal (some x)) x
  | withinPercent v x => BandsCorrect v.limits (v.call x) (v.isMarginal x) x

/-- The value is in no band beyond the range, nor at its ends where they are left out. -/
def Regular : MarginalTest → Prop
  | allInRange _ _ => True
  | inRange v x => (∀ m ∈ v.marginalMinimum, ∀ b ∈ v.maximum, ¬(b < x ∧ x ≤ m)) ∧
      ∀ m ∈ v.marginalMaximum, ∀ a ∈ v.minimum, ¬(m ≤ x ∧ x < a)
  | withinPercent v x => v.marginalPercent = none ∨ v.marginalPercent ≠ some 0 ∧
      (x ≠ v.minimum ∧ x ≠ v.maximum ∨ v.appliedPercent < v.appliedMarginalPercent)

end MarginalTest

/-- `AllInRangeValidator` is always right about its bands, and `InRange` and
`WithinPercent` exactly where they do not leave the range and its ends. -/
theorem bands_correct_iff (t : MarginalTest) : t.Correct ↔ t.Regular := by
  cases t with
  | allInRange v values => exact iff_true_intro (decides_allInRange v values)
  | inRange v x => exact inRange_correct_iff v x
  | withinPercent v x => exact withinPercent_correct_iff v x

/-! ## The defects -/

theorem AcceptedLimits.new_of_check {l : Limits} (h : l.check = .ok ()) :
    AcceptedLimits.new l = .ok ⟨l, h⟩ := by
  unfold AcceptedLimits.new
  split
  · rfl
  · rename_i e he
    rw [h] at he
    cases he

/-- `within_percent(100, 10, 5)` at its minimum, `within_percent(100, 10, 0)`, and
`in_range(0, 10, marginal_minimum=20)` above its maximum. -/
theorem not_bands_correct :
    (∃ v, WithinPercent.new 100 10 (some 5) = .ok v ∧
      ¬BandsCorrect v.limits (v.call 90) (v.isMarginal 90) 90) ∧
    (∃ v, WithinPercent.new 100 10 (some 0) = .ok v ∧ v.isMarginal 100 = .error .TypeError) ∧
    ∃ v, InRange.new { minimum := some 0, maximum := some 10, marginalMinimum := some 20 } = .ok v ∧
      v.isMarginal (some 15) = .ok true ∧ v.call (some 15) = false := by
  refine ⟨⟨⟨100, 10, some 5, by norm_num, by rintro _ ⟨⟩; norm_num⟩, ?_, ?_⟩,
    ⟨⟨100, 10, some 0, by norm_num, by rintro _ ⟨⟩; norm_num⟩, ?_, ?_⟩, ?_⟩
  · norm_num [WithinPercent.new]
  · rw [withinPercent_correct_iff]
    norm_num [WithinPercent.minimum, WithinPercent.appliedPercent, WithinPercent.appliedMarginalPercent]
    simp
  · norm_num [WithinPercent.new]
  · exact WithinPercent.isMarginal_of_zero _ _ rfl
  · have haccepted : Limits.check
        { minimum := some 0, maximum := some 10, marginalMinimum := some 20 } = .ok () := by
      norm_num [Limits.check, exceeds]
    refine ⟨⟨⟨_, haccepted⟩⟩, ?_, ?_, ?_⟩
    · rw [InRange.new, AcceptedLimits.new_of_check haccepted]
      rfl
    · norm_num [InRange.isMarginal, ifSet, and', or', le, Except.bind]
    · norm_num [InRange.call, exceeds]

end OpenHtf.Validators
