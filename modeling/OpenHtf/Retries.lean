import Mathlib.Order.Bounds.Basic
import Mathlib.Data.Set.Insert

/-!
# Retrying a method

`retry_until_valid_or_limit_reached` and `RetryHelper` of `util.timeouts`.  The
invocations of the method are numbered from `0` on.
-/

set_option autoImplicit false

namespace OpenHtf.Retries

/-- What an invocation of the method does; `none` is the value `None`. -/
inductive Outcome (V E : Type) where
  | returned (value : Option V)
  | raised (e : E)
  deriving DecidableEq

structure RetryHelper where
  remaining : ℤ

def RetryHelper.retryIfPossible (helper : RetryHelper) : Bool × RetryHelper :=
  let remaining := helper.remaining - 1
  (decide (0 ≤ remaining), ⟨remaining⟩)

/-- What a call raises: an `AssertionError`, or what the method has raised. -/
inductive Failure (E : Type) where
  | assertion (text : String)
  | method (e : E)
  deriving DecidableEq

/-- A call that has ended: how often it invoked the method, the sleeps in between,
and what it returned or raised. -/
structure Run (V E S : Type) where
  calls : ℕ
  slept : List S
  result : Except (Failure E) (Option V)

section Model

variable {V E S : Type} (method : ℕ → Outcome V E) (validation : Option V → Bool) (sleepS : S)
  (catchExceptions : E → Bool)

/-- `_execute_method`, for the invocation with this outcome. -/
def executeMethod (helper : RetryHelper) : Outcome V E → Except E (Option V)
  | .returned value => .ok value
  | .raised e =>
    if catchExceptions e then
      if helper.remaining = 0 then .error e else .ok none
    else .error e

/-- The `while` loop, after `calls` invocations of which the last one gave `result`. -/
def retryLoop (calls : ℕ) (slept : List S) (result : Option V) (helper : RetryHelper) : Run V E S :=
  if validation result then ⟨calls, slept, .ok result⟩
  else if _h : helper.retryIfPossible.1 then
    match executeMethod catchExceptions helper.retryIfPossible.2 (method calls) with
    | .error e => ⟨calls + 1, slept ++ [sleepS], .error (.method e)⟩
    | .ok result => retryLoop (calls + 1) (slept ++ [sleepS]) result helper.retryIfPossible.2
  else ⟨calls, slept, .ok result⟩
termination_by helper.remaining.toNat
decreasing_by
  simp only [RetryHelper.retryIfPossible, decide_eq_true_eq] at _h ⊢
  omega

def retryUntilValidOrLimitReached (limit : ℤ) : Run V E S :=
  if limit > 0 then
    let helper : RetryHelper := ⟨limit - 1⟩
    match executeMethod catchExceptions helper (method 0) with
    | .error e => ⟨1, [], .error (.method e)⟩
    | .ok result => retryLoop method validation sleepS catchExceptions 1 [] result helper
  else ⟨0, [], .error (.assertion "Limit must be greater than 0")⟩

/-- `truth` is the truth of a value that is not `None`. -/
def retryUntilTrueOrLimitReached (truth : V → Bool) (limit : ℤ) : Run V E S :=
  retryUntilValidOrLimitReached method (fun value ↦ value.any truth) sleepS catchExceptions limit

def retryUntilNotNoneOrLimitReached (limit : ℤ) : Run V E S :=
  retryUntilValidOrLimitReached method (fun value ↦ value.isSome) sleepS catchExceptions limit

end Model

/-! ## How often the method is invoked -/

section Invocations

variable {V E S : Type} (method : ℕ → Outcome V E) (validation : Option V → Bool)

/-- The invocation returned, without raising, a value that the validation accepts. -/
def Accepted : Outcome V E → Prop
  | .returned value => validation value = true
  | .raised _ => False

/-- The invocations are as many as the limit or the first accepted one allows, one
that raised is tried again while the limit allows it, and what the last permitted
one raises propagates. -/
structure Exact (limit : ℕ) (run : Run V E S) : Prop where
  calls : IsLeast (insert limit {n | ∃ i, n = i + 1 ∧ Accepted validation (method i)}) run.calls
  retried : ∀ i e, i < run.calls → method i = .raised e → i + 1 < run.calls ∨ i + 1 = limit
  propagates : ∀ i e, i + 1 = limit → i < run.calls → method i = .raised e →
    run.result = .error (.method e)

/-- Where the validation accepts `None`, no invocation but the last permitted one
raises before a value has been accepted. -/
def FailuresRejected (limit : ℕ) : Prop :=
  validation none = true → ∀ i e, i + 1 < limit → method i = .raised e →
    ∃ j < i, Accepted validation (method j)

end Invocations

/-! ## Where the loop ends -/

section Ends

variable {V E S : Type} {method : ℕ → Outcome V E} {validation : Option V → Bool} {sleepS : S}
  {catchExceptions : E → Bool} {limit : ℕ}

theorem executeMethod_eq_ok_iff {k : ℕ} {o : Outcome V E} {result : Option V}
    (hcaught : ∀ e, o = .raised e → catchExceptions e = true) :
    executeMethod catchExceptions ⟨k⟩ o = .ok result ↔
      o = .returned result ∨ ∃ e, o = .raised e ∧ k ≠ 0 ∧ result = none := by
  cases o with
  | returned value => simp [executeMethod]
  | raised e =>
      have he := hcaught e rfl
      by_cases hk : k = 0
      · simp [executeMethod, he, hk]
      · simp [executeMethod, he, hk, eq_comm]

theorem executeMethod_eq_error_iff {k : ℕ} {o : Outcome V E} {e : E}
    (hcaught : ∀ e, o = .raised e → catchExceptions e = true) :
    executeMethod catchExceptions ⟨k⟩ o = .error e ↔ o = .raised e ∧ k = 0 := by
  cases o with
  | returned value => simp [executeMethod]
  | raised e' =>
      have he := hcaught e' rfl
      by_cases hk : k = 0
      · simp [executeMethod, he, hk]
      · simp [executeMethod, he, hk]

/-- The invocation ends the loop: its value is accepted, or it raised and `None` is. -/
def Stops (validation : Option V → Bool) : Outcome V E → Prop
  | .returned value => validation value = true
  | .raised _ => validation none = true

theorem Accepted.stops {o : Outcome V E} (h : Accepted validation o) : Stops validation o := by
  cases o with
  | returned value => exact h
  | raised e => exact h.elim

/-- The run invokes the method for the last time at `last`. -/
structure EndsAt (method : ℕ → Outcome V E) (validation : Option V → Bool) (sleepS : S) (limit : ℕ)
    (last : ℕ) (run : Run V E S) : Prop where
  calls : run.calls = last + 1
  slept : run.slept = List.replicate last sleepS
  before : ∀ i < last, ¬Stops validation (method i)
  stops : last + 1 = limit ∨ last + 1 < limit ∧ Stops validation (method last)
  returns : ∀ value, method last = .returned value → run.result = .ok value
  raises : ∀ e, method last = .raised e → last + 1 = limit → run.result = .error (.method e)

theorem retryLoop_endsAt (hcaught : ∀ i e, method i = .raised e → catchExceptions e = true)
    {n k : ℕ} {result : Option V} (hlimit : n + 1 + k = limit)
    (hbefore : ∀ i < n, ¬Stops validation (method i))
    (hresult : executeMethod catchExceptions ⟨k⟩ (method n) = .ok result) :
    ∃ last, EndsAt method validation sleepS limit last
      (retryLoop method validation sleepS catchExceptions (n + 1) (List.replicate n sleepS) result
        ⟨k⟩) := by
  induction k generalizing n result with
  | zero =>
      have hreturned : method n = .returned result := by
        simpa using (executeMethod_eq_ok_iff (hcaught n)).mp hresult
      have hrun : retryLoop method validation sleepS catchExceptions (n + 1)
          (List.replicate n sleepS) result ⟨(0 : ℕ)⟩ = ⟨n + 1, List.replicate n sleepS, .ok result⟩ := by
        rw [retryLoop]
        simp [RetryHelper.retryIfPossible]
      rw [hrun]
      refine ⟨n, rfl, rfl, hbefore, .inl hlimit, ?_, ?_⟩
      · rintro value hvalue
        simp_all
      · rintro e he
        simp_all
  | succ k ih =>
      have hcases := (executeMethod_eq_ok_iff (hcaught n)).mp hresult
      have hstops : Stops validation (method n) ↔ validation result = true := by
        obtain h | ⟨e, h, -, rfl⟩ := hcases <;> rw [h] <;> rfl
      rw [retryLoop]
      split
      · rename_i hvalid
        refine ⟨n, rfl, rfl, hbefore, .inr ⟨by omega, hstops.mpr hvalid⟩, ?_, fun e _ h ↦ by omega⟩
        intro value hvalue
        obtain h | ⟨e, h, -⟩ := hcases
        · simp_all
        · simp_all
      · rename_i hinvalid
        have hnext : ∀ i < n + 1, ¬Stops validation (method i) := by
          intro i hi
          obtain hi | rfl := Nat.lt_succ_iff_lt_or_eq.mp hi
          · exact hbefore i hi
          · rwa [hstops]
        have hhelper : RetryHelper.retryIfPossible ⟨((k + 1 : ℕ) : ℤ)⟩ = (true, ⟨(k : ℤ)⟩) := by
          simp [RetryHelper.retryIfPossible]
        simp only [hhelper, ↓reduceDIte]
        split
        · rename_i e he
          obtain ⟨hraised, rfl⟩ := (executeMethod_eq_error_iff (hcaught (n + 1))).mp he
          refine ⟨n + 1, rfl, List.replicate_succ'.symm, hnext, .inl hlimit, ?_, ?_⟩
          · intro value hvalue
            simp_all
          · intro e' he' _
            simp_all
        · rename_i result' hresult'
          rw [← List.replicate_succ']
          exact ih (by omega) hnext hresult'

theorem retryUntilValidOrLimitReached_endsAt (sleepS : S)
    (hcaught : ∀ i e, method i = .raised e → catchExceptions e = true) (hlimit : 0 < limit) :
    ∃ last, EndsAt method validation sleepS limit last
      (retryUntilValidOrLimitReached method validation sleepS catchExceptions limit) := by
  obtain ⟨k, rfl⟩ : ∃ k, limit = k + 1 := Nat.exists_eq_add_one.mpr hlimit
  rw [retryUntilValidOrLimitReached, if_pos (by omega)]
  have hhelper : ((k + 1 : ℕ) : ℤ) - 1 = k := by omega
  simp only [hhelper]
  split
  · rename_i e he
    obtain ⟨hraised, rfl⟩ := (executeMethod_eq_error_iff (hcaught 0)).mp he
    refine ⟨0, rfl, rfl, fun i hi ↦ absurd hi (Nat.not_lt_zero i), .inl rfl, ?_, ?_⟩
    · intro value hvalue
      simp_all
    · intro e' he' _
      simp_all
  · rename_i result hresult
    exact retryLoop_endsAt hcaught (by omega) (fun i hi ↦ absurd hi (Nat.not_lt_zero i)) hresult

variable {last : ℕ} {run : Run V E S}

theorem EndsAt.succ_le (hends : EndsAt method validation sleepS limit last run) : last + 1 ≤ limit := by
  obtain h | ⟨h, -⟩ := hends.stops
  · exact h.le
  · exact h.le

theorem EndsAt.le_of_stops (hends : EndsAt method validation sleepS limit last run) {i : ℕ}
    (hi : Stops validation (method i)) : last ≤ i := by
  by_contra hlt
  exact hends.before i (by omega) hi

/-- The last invocation raised only if it was the last permitted one. -/
theorem EndsAt.limit_of_raised (hends : EndsAt method validation sleepS limit last run)
    (hrejected : FailuresRejected method validation limit) {e : E} (hraised : method last = .raised e) :
    last + 1 = limit := by
  obtain h | ⟨hlt, hstops⟩ := hends.stops
  · exact h
  · rw [hraised] at hstops
    obtain ⟨j, hj, haccepted⟩ := hrejected hstops last e hlt hraised
    exact absurd haccepted.stops (hends.before j hj)

theorem EndsAt.exact (hends : EndsAt method validation sleepS limit last run)
    (hrejected : FailuresRejected method validation limit) : Exact method validation limit run where
  calls := by
    rw [hends.calls]
    constructor
    · cases hlast : method last with
      | raised e => exact .inl (hends.limit_of_raised hrejected hlast)
      | returned value =>
          obtain h | ⟨-, hstops⟩ := hends.stops
          · exact .inl h
          · refine .inr ⟨last, rfl, ?_⟩
            rw [hlast] at hstops ⊢
            exact hstops
    · rintro n (rfl | ⟨i, rfl, haccepted⟩)
      · exact hends.succ_le
      · have hle := hends.le_of_stops haccepted.stops
        omega
  retried := by
    intro i e hi hraised
    rw [hends.calls] at hi ⊢
    obtain hi | rfl := Nat.lt_succ_iff_lt_or_eq.mp hi
    · exact .inl (by omega)
    · exact .inr (hends.limit_of_raised hrejected hraised)
  propagates := by
    intro i e hi hcalled hraised
    rw [hends.calls] at hcalled
    have hle := hends.succ_le
    obtain rfl : i = last := by omega
    exact hends.raises e hraised hi

theorem EndsAt.failuresRejected (hends : EndsAt method validation sleepS limit last run)
    (hexact : Exact method validation limit run) : FailuresRejected method validation limit := by
  intro hnone i e hi hraised
  have hstops : Stops validation (method i) := by
    rw [hraised]
    exact hnone
  have hle := hends.le_of_stops hstops
  have hmem := hexact.calls.1
  rw [hends.calls] at hmem
  -- the last invocation comes before the limit, so it is the first accepted one
  obtain h | ⟨j, hj, haccepted⟩ := hmem
  · omega
  · obtain rfl : last = j := by omega
    refine ⟨last, lt_of_le_of_ne hle ?_, haccepted⟩
    rintro rfl
    rw [hraised] at haccepted
    exact haccepted

end Ends

/-! ## The result -/

/-- The decisions are exact for every method if the validation rejects `None`. -/
theorem exact_of_rejects_none {V E S : Type} {method : ℕ → Outcome V E}
    {validation : Option V → Bool} {sleepS : S} {catchExceptions : E → Bool} {limit : ℕ}
    (hcaught : ∀ i e, method i = .raised e → catchExceptions e = true) (hlimit : 0 < limit)
    (hnone : validation none = false) :
    Exact method validation limit
      (retryUntilValidOrLimitReached method validation sleepS catchExceptions limit) := by
  obtain ⟨last, hends⟩ := retryUntilValidOrLimitReached_endsAt sleepS hcaught hlimit
  apply hends.exact
  intro h
  rw [hnone] at h
  contradiction

theorem retryUntilTrueOrLimitReached_exact {V E S : Type} {method : ℕ → Outcome V E} {sleepS : S}
    {catchExceptions : E → Bool} {limit : ℕ} (truth : V → Bool)
    (hcaught : ∀ i e, method i = .raised e → catchExceptions e = true) (hlimit : 0 < limit) :
    Exact method (fun value ↦ value.any truth) limit
      (retryUntilTrueOrLimitReached method sleepS catchExceptions truth limit) :=
  exact_of_rejects_none hcaught hlimit rfl

theorem retryUntilNotNoneOrLimitReached_exact {V E S : Type} {method : ℕ → Outcome V E} {sleepS : S}
    {catchExceptions : E → Bool} {limit : ℕ}
    (hcaught : ∀ i e, method i = .raised e → catchExceptions e = true) (hlimit : 0 < limit) :
    Exact method (fun value ↦ value.isSome) limit
      (retryUntilNotNoneOrLimitReached method sleepS catchExceptions limit) :=
  exact_of_rejects_none hcaught hlimit rfl

/-- With exceptions of the caught types only, the retry decisions are exact if and
only if the validation cannot take the `None` of a failure for a value. -/
theorem retryUntilValidOrLimitReached_exact_iff {V E S : Type} {method : ℕ → Outcome V E}
    {validation : Option V → Bool} {sleepS : S} {catchExceptions : E → Bool} {limit : ℕ}
    (hcaught : ∀ i e, method i = .raised e → catchExceptions e = true) (hlimit : 0 < limit) :
    Exact method validation limit
        (retryUntilValidOrLimitReached method validation sleepS catchExceptions limit) ↔
      FailuresRejected method validation limit := by
  obtain ⟨last, hends⟩ := retryUntilValidOrLimitReached_endsAt sleepS hcaught hlimit
  exact ⟨hends.failuresRejected, hends.exact⟩

/-- A method that fails once and then returns. -/
def failsOnce : ℕ → Outcome ℕ String
  | 0 => .raised "busy"
  | _ + 1 => .returned (some 7)

theorem failsOnce_exact_iff :
    Exact failsOnce (fun value ↦ value.isSome) 3
        (retryUntilValidOrLimitReached failsOnce (fun value ↦ value.isSome) 1 (fun _ ↦ true) (3 : ℕ)) ↔
      FailuresRejected failsOnce (fun value ↦ value.isSome) 3 :=
  retryUntilValidOrLimitReached_exact_iff (fun _ _ _ ↦ rfl) (by decide)

/-- A validation that accepts everything takes the failure for a success, and the
method is not invoked again. -/
theorem failsOnce_not_exact :
    ¬Exact failsOnce (fun _ ↦ true) 3
      (retryUntilValidOrLimitReached failsOnce (fun _ ↦ true) 1 (fun _ ↦ true) (3 : ℕ)) := by
  have hcalls : (retryUntilValidOrLimitReached failsOnce (fun _ ↦ true) 1 (fun _ ↦ true)
      (3 : ℕ)).calls = 1 := by
    simp [retryUntilValidOrLimitReached, executeMethod, failsOnce, retryLoop]
  intro hexact
  have hmem := hexact.calls.1
  rw [hcalls] at hmem
  obtain h | ⟨i, hi, haccepted⟩ := hmem
  · exact absurd h (by decide)
  · obtain rfl : i = 0 := by omega
    exact haccepted

end OpenHtf.Retries
