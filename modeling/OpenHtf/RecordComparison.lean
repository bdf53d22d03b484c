import Mathlib.Algebra.Order.BigOperators.Group.List
import Mathlib.Algebra.Order.Ring.Nat
import Mathlib.Data.List.Forall2

/-!
# The comparison of records

`util.data.assert_records_equal_nonvolatile` descends into two records at once.
Sequences are walked with `zip`, which stops at the end of the shorter one, and a
string is a sequence of strings, itself among them when it has one character.
-/

set_option autoImplicit false

namespace OpenHtf.RecordComparison

/-! ## Records -/

/-- What has keys and values: dicts, namedtuples and records of `mutablerecords`. -/
inductive Shape where
  | dict
  | namedtuple
  | record
  deriving DecidableEq

/-- Records over keys `κ` and scalars `σ`.  A dict has a value for each of its keys,
which differ and stand in the order of insertion. -/
inductive Value (κ σ : Type) where
  | scalar (x : σ)
  | str (s : List Char)
  | list (xs : List (Value κ σ))
  | fields (shape : Shape) (keys : List κ) (distinct : keys.Nodup) (get : {k // k ∈ keys} → Value κ σ)

section

variable {κ σ : Type}

/-- The key as an object: a scalar or a string. -/
def Value.ofKey (key : κ → σ ⊕ List Char) (k : κ) : Value κ σ := (key k).elim .scalar .str

/-- What iterating over the object gives, if it has `__iter__`. -/
def Value.iter (key : κ → σ ⊕ List Char) : Value κ σ → Option (List (Value κ σ))
  | .scalar _ => none
  | .str s => some (s.map fun c ↦ .str [c])
  | .list xs => some xs
  | .fields .dict keys _ _ => some (keys.map (.ofKey key))
  | .fields .namedtuple keys _ get => some (keys.attach.map get)
  | .fields .record _ _ _ => none

mutual

/-- A bound on the calls inside each other. -/
def size : Value κ σ → ℕ
  | .scalar _ => 0
  | .str _ => 1
  | .list xs => sizeOfList xs + 1
  | .fields shape keys _ get =>
    (keys.attach.map fun k ↦ size (get k)).sum + if shape = .dict then 2 else 3

def sizeOfList : List (Value κ σ) → ℕ
  | [] => 0
  | x :: xs => size x + sizeOfList xs

end

theorem size_le_sizeOfList {x : Value κ σ} {xs : List (Value κ σ)} (h : x ∈ xs) : size x ≤ sizeOfList xs := by
  induction xs with
  | nil => cases h
  | cons y xs ih =>
      rw [sizeOfList]
      rcases List.mem_cons.mp h with rfl | h
      · omega
      · have := ih h
        omega

theorem size_get (shape : Shape) {keys : List κ} (distinct : keys.Nodup)
    (get : {k // k ∈ keys} → Value κ σ) (k : {k // k ∈ keys}) :
    size (get k) + 2 ≤ size (.fields shape keys distinct get) := by
  have hmem : size (get k) ∈ keys.attach.map fun k ↦ size (get k) :=
    List.mem_map_of_mem (List.mem_attach keys k)
  have hle := List.le_sum_of_mem hmem
  rw [size]
  split <;> omega

theorem size_ofKey (key : κ → σ ⊕ List Char) (k : κ) : size (.ofKey key k : Value κ σ) ≤ 1 := by
  unfold Value.ofKey
  cases key k <;> simp [size]

theorem size_of_mem_iter {key : κ → σ ⊕ List Char} {x first : Value κ σ} {xs : List (Value κ σ)}
    (h : first.iter key = some xs) (hx : x ∈ xs) :
    size x < size first ∨ ∃ c s, first = .str (c :: s) ∧ size x = 1 := by
  cases first with
  | scalar y => cases h
  | str s =>
      obtain rfl := Option.some.inj h
      obtain ⟨c, hc, rfl⟩ := List.mem_map.mp hx
      obtain ⟨d, s, rfl⟩ := List.exists_cons_of_ne_nil (List.ne_nil_of_mem hc)
      exact .inr ⟨d, s, rfl, rfl⟩
  | list ys =>
      obtain rfl := Option.some.inj h
      have := size_le_sizeOfList hx
      left
      rw [size]
      omega
  | fields shape keys distinct get =>
      left
      cases shape with
      | dict =>
          obtain rfl := Option.some.inj h
          obtain ⟨k, hk, rfl⟩ := List.mem_map.mp hx
          have := size_ofKey key k
          have := size_get .dict distinct get ⟨k, hk⟩
          omega
      | namedtuple =>
          obtain rfl := Option.some.inj h
          obtain ⟨k, _, rfl⟩ := List.mem_map.mp hx
          have := size_get .namedtuple distinct get k
          omega
      | record => cases h

variable [DecidableEq κ] [BEq σ]

/-- `first == second` where one of the two has no `__iter__`, records apart. -/
def Value.equal : Value κ σ → Value κ σ → Bool
  | .scalar x, .scalar y => x == y
  | _, _ => false

/-! ## The comparison -/

inductive Verdict where
  | returned
  | assertionError
  deriving DecidableEq

/-- The calls of a loop, one after the other; `none` when a call never ends. -/
def inTurn {α : Type} (compare : α → α → Option Verdict) : List (α × α) → Option Verdict
  | [] => some .returned
  | pair :: pairs =>
    match compare pair.1 pair.2 with
    | some .returned => inTurn compare pairs
    | verdict => verdict

/-- `first[key]` and `second[key]` for the keys of `first` that are not volatile. -/
def nonvolatile (volatileFields keys keys' : List κ) (get : {k // k ∈ keys} → Value κ σ)
    (get' : {k // k ∈ keys'} → Value κ σ) : List (Value κ σ × Value κ σ) :=
  keys.attach.filterMap fun k ↦
    if k.1 ∈ volatileFields then none
    else if h : k.1 ∈ keys' then some (get k, get' ⟨k.1, h⟩)
    else none

/-- `set(first) == set(second)`. -/
def sameKeys (keys keys' : List κ) : Bool := decide (keys ⊆ keys' ∧ keys' ⊆ keys)

/-- The function with at most so many calls inside each other. -/
def assertRecordsEqualNonvolatile (key : κ → σ ⊕ List Char) (volatileFields : List κ) :
    ℕ → Value κ σ → Value κ σ → Option Verdict
  | 0, _, _ => none
  | n + 1, .fields .dict keys _ get, .fields .dict keys' _ get' =>
    if sameKeys keys keys' then
      inTurn (assertRecordsEqualNonvolatile key volatileFields n)
        (nonvolatile volatileFields keys keys' get get')
    else some .assertionError
  | n + 1, .fields .namedtuple keys distinct get, .fields .namedtuple keys' distinct' get' =>
    assertRecordsEqualNonvolatile key volatileFields n (.fields .dict keys distinct get)
      (.fields .dict keys' distinct' get')
  | n + 1, .fields .record keys distinct get, .fields .record keys' distinct' get' =>
    assertRecordsEqualNonvolatile key volatileFields n (.fields .dict keys distinct get)
      (.fields .dict keys' distinct' get')
  | n + 1, first, second =>
    match first.iter key, second.iter key with
    | some xs, some ys => inTurn (assertRecordsEqualNonvolatile key volatileFields n) (xs.zip ys)
    | _, _ => if first.equal second then some .returned else some .assertionError

/-! ## Agreement -/

/-- The two do not differ outside the values of volatile keys. -/
inductive Agree (volatileFields : List κ) : Value κ σ → Value κ σ → Prop
  | scalar (x y : σ) (h : (x == y) = true) : Agree volatileFields (.scalar x) (.scalar y)
  | str (s : List Char) : Agree volatileFields (.str s) (.str s)
  | list (xs ys : List (Value κ σ)) (h : List.Forall₂ (Agree volatileFields) xs ys) :
      Agree volatileFields (.list xs) (.list ys)
  | fields (shape : Shape) (keys keys' : List κ) (distinct : keys.Nodup) (distinct' : keys'.Nodup)
      (get : {k // k ∈ keys} → Value κ σ) (get' : {k // k ∈ keys'} → Value κ σ)
      (hkeys : ∀ k, k ∈ keys ↔ k ∈ keys')
      (hvalues : ∀ k ∉ volatileFields, ∀ h h', Agree volatileFields (get ⟨k, h⟩) (get' ⟨k, h'⟩)) :
      Agree volatileFields (.fields shape keys distinct get) (.fields shape keys' distinct' get')

/-- A string that is not empty stands outside the values of volatile keys. -/
inductive HasText (volatileFields : List κ) : Value κ σ → Prop
  | str (s : List Char) (h : s ≠ []) : HasText volatileFields (.str s)
  | list (xs : List (Value κ σ)) (x : Value κ σ) (hx : x ∈ xs) (h : HasText volatileFields x) :
      HasText volatileFields (.list xs)
  | fields (shape : Shape) (keys : List κ) (distinct : keys.Nodup) (get : {k // k ∈ keys} → Value κ σ)
      (k : {k // k ∈ keys}) (hk : k.1 ∉ volatileFields) (h : HasText volatileFields (get k)) :
      HasText volatileFields (.fields shape keys distinct get)

/-- The comparison ends, and in an `AssertionError` just when the records differ. -/
def IsExact (key : κ → σ ⊕ List Char) (volatileFields : List κ) (first second : Value κ σ) : Prop :=
  ∃ n verdict, assertRecordsEqualNonvolatile key volatileFields n first second = some verdict ∧
    (verdict = .assertionError ↔ ¬Agree volatileFields first second)

/-! ## What one call does -/

/-- The calls that a call makes in turn, or `none` when it raises itself. -/
def calls (key : κ → σ ⊕ List Char) (volatileFields : List κ) :
    Value κ σ → Value κ σ → Option (List (Value κ σ × Value κ σ))
  | .fields .dict keys _ get, .fields .dict keys' _ get' =>
    if sameKeys keys keys' then some (nonvolatile volatileFields keys keys' get get') else none
  | .fields .namedtuple keys distinct get, .fields .namedtuple keys' distinct' get' =>
    some [(.fields .dict keys distinct get, .fields .dict keys' distinct' get')]
  | .fields .record keys distinct get, .fields .record keys' distinct' get' =>
    some [(.fields .dict keys distinct get, .fields .dict keys' distinct' get')]
  | first, second =>
    match first.iter key, second.iter key with
    | some xs, some ys => some (xs.zip ys)
    | _, _ => if first.equal second then some [] else none

theorem inTurn_singleton {α : Type} (compare : α → α → Option Verdict) (pair : α × α) :
    inTurn compare [pair] = compare pair.1 pair.2 := by
  unfold inTurn
  split
  · rename_i h
    exact h.symm
  · rfl

theorem assertRecordsEqualNonvolatile_succ (key : κ → σ ⊕ List Char) (volatileFields : List κ) (n : ℕ)
    (first second : Value κ σ) :
    assertRecordsEqualNonvolatile key volatileFields (n + 1) first second =
      (calls key volatileFields first second).elim (some .assertionError)
        (inTurn (assertRecordsEqualNonvolatile key volatileFields n)) := by
  fun_cases calls key volatileFields first second with
  | case1 keys _ get keys' _ get' hkeys => simp [assertRecordsEqualNonvolatile, hkeys]
  | case2 keys _ get keys' _ get' hkeys => simp [assertRecordsEqualNonvolatile, hkeys]
  | case3 keys distinct get keys' distinct' get' => simp [assertRecordsEqualNonvolatile, inTurn_singleton]
  | case4 keys distinct get keys' distinct' get' => simp [assertRecordsEqualNonvolatile, inTurn_singleton]
  | case5 first second => simp [assertRecordsEqualNonvolatile, *]
  | case6 first second => simp [assertRecordsEqualNonvolatile, inTurn, *]
  | case7 first second => simp [assertRecordsEqualNonvolatile, *]

/-- Two strings that are not empty: their first characters are compared by the same call. -/
def bothText : Value κ σ → Value κ σ → Bool
  | .str (_ :: _), .str (_ :: _) => true
  | _, _ => false

omit [BEq σ] in
theorem mem_nonvolatile {volatileFields keys keys' : List κ} {get : {k // k ∈ keys} → Value κ σ}
    {get' : {k // k ∈ keys'} → Value κ σ} {pair : Value κ σ × Value κ σ} :
    pair ∈ nonvolatile volatileFields keys keys' get get' ↔
      ∃ k ∉ volatileFields, ∃ h h', pair = (get ⟨k, h⟩, get' ⟨k, h'⟩) := by
  unfold nonvolatile
  rw [List.mem_filterMap]
  constructor
  · rintro ⟨⟨k, h⟩, _, hpair⟩
    split at hpair
    · cases hpair
    · rename_i hk
      split at hpair
      · rename_i h'
        exact ⟨k, hk, h, h', (Option.some.inj hpair).symm⟩
      · cases hpair
  · rintro ⟨k, hk, h, h', rfl⟩
    exact ⟨⟨k, h⟩, List.mem_attach _ _, by simp [hk, h']⟩

/-- The calls inside a call are smaller, two strings apart. -/
theorem size_calls {key : κ → σ ⊕ List Char} {volatileFields : List κ} {first second : Value κ σ}
    {pairs : List (Value κ σ × Value κ σ)} {pair : Value κ σ × Value κ σ}
    (h : calls key volatileFields first second = some pairs) (htext : bothText first second = false)
    (hpair : pair ∈ pairs) : size pair.1 + size pair.2 < size first + size second := by
  revert h
  fun_cases calls key volatileFields first second with
  | case1 keys distinct get keys' distinct' get' hkeys =>
      intro h
      obtain rfl := Option.some.inj h
      obtain ⟨k, _, hk, hk', rfl⟩ := mem_nonvolatile.mp hpair
      have := size_get .dict distinct get ⟨k, hk⟩
      have := size_get .dict distinct' get' ⟨k, hk'⟩
      dsimp only
      omega
  | case2 => nofun
  | case3 keys distinct get keys' distinct' get' =>
      intro h
      obtain rfl := Option.some.inj h
      obtain rfl := List.mem_singleton.mp hpair
      simp only [size, reduceCtorEq, if_true, if_false]
      omega
  | case4 keys distinct get keys' distinct' get' =>
      intro h
      obtain rfl := Option.some.inj h
      obtain rfl := List.mem_singleton.mp hpair
      simp only [size, reduceCtorEq, if_true, if_false]
      omega
  | case5 first second _ _ _ ys xs hys hxs =>
      intro h
      obtain rfl := Option.some.inj h
      obtain ⟨hx, hy⟩ := List.of_mem_zip hpair
      rcases size_of_mem_iter hxs hx with hx | ⟨c, s, rfl, hx⟩ <;>
        rcases size_of_mem_iter hys hy with hy | ⟨d, t, rfl, hy⟩
      · omega
      · simp only [size]
        omega
      · simp only [size]
        omega
      · cases htext
  | case6 =>
      intro h
      obtain rfl := Option.some.inj h
      cases hpair
  | case7 => nofun

/-! ## What is compared -/

inductive Comparison where
  | mismatch
  | strings
  deriving DecidableEq

/-- What the records are found to differ in, and the strings that are met, in the order of
the descent. -/
def comparisons (key : κ → σ ⊕ List Char) (volatileFields : List κ) (first second : Value κ σ) :
    List Comparison :=
  if _h : bothText first second then [.strings]
  else
    match _hcalls : calls key volatileFields first second with
    | none => [.mismatch]
    | some pairs => pairs.attach.flatMap fun pair ↦ comparisons key volatileFields pair.1.1 pair.1.2
termination_by size first + size second
decreasing_by exact size_calls _hcalls (by simpa using _h) pair.2

section Comparisons

variable {key : κ → σ ⊕ List Char} {volatileFields : List κ} {first second : Value κ σ}
  {pairs : List (Value κ σ × Value κ σ)}

theorem comparisons_bothText (h : bothText first second = true) :
    comparisons key volatileFields first second = [.strings] := by
  rw [comparisons, dif_pos h]

theorem comparisons_none (h : bothText first second = false)
    (hcalls : calls key volatileFields first second = none) :
    comparisons key volatileFields first second = [.mismatch] := by
  rw [comparisons, dif_neg (by simp [h])]
  split
  · rfl
  · rename_i hsome
    rw [hcalls] at hsome
    cases hsome

theorem comparisons_some (h : bothText first second = false)
    (hcalls : calls key volatileFields first second = some pairs) :
    comparisons key volatileFields first second =
      pairs.flatMap fun pair ↦ comparisons key volatileFields pair.1 pair.2 := by
  rw [comparisons, dif_neg (by simp [h])]
  split
  · rename_i hnone
    rw [hcalls] at hnone
    cases hnone
  · rename_i hsome
    obtain rfl := Option.some.inj (hcalls.symm.trans hsome)
    conv_rhs => rw [← List.attach_map_subtype_val pairs, List.flatMap_map]

end Comparisons

/-! ## The run of the comparison -/

/-- How the descent ends: strings that are met are never left. -/
def outcome : List Comparison → Option Verdict
  | [] => some .returned
  | .mismatch :: _ => some .assertionError
  | .strings :: _ => none

theorem outcome_append (cs ds : List Comparison) :
    outcome (cs ++ ds) = if cs = [] then outcome ds else outcome cs := by
  cases cs with
  | nil => rfl
  | cons c cs => cases c <;> rfl

theorem outcome_eq_returned_iff {cs : List Comparison} : outcome cs = some .returned ↔ cs = [] := by
  cases cs with
  | nil => simp [outcome]
  | cons c cs => cases c <;> simp [outcome]

theorem inTurn_eq_outcome {α : Type} {compare : α → α → Option Verdict} {found : α × α → List Comparison}
    {pairs : List (α × α)} (h : ∀ pair ∈ pairs, compare pair.1 pair.2 = outcome (found pair)) :
    inTurn compare pairs = outcome (pairs.flatMap found) := by
  induction pairs with
  | nil => rfl
  | cons pair pairs ih =>
      obtain ⟨hpair, hpairs⟩ := List.forall_mem_cons.mp h
      rw [inTurn, List.flatMap_cons, outcome_append, hpair, ih hpairs]
      by_cases hfound : found pair = []
      · simp [hfound, outcome]
      · rw [if_neg hfound]
        split
        · rename_i hreturned
          exact absurd (outcome_eq_returned_iff.mp hreturned) hfound
        · rfl

theorem inTurn_mono {α : Type} {compare compare' : α → α → Option Verdict}
    (h : ∀ x y verdict, compare x y = some verdict → compare' x y = some verdict) {verdict : Verdict}
    {pairs : List (α × α)} (hpairs : inTurn compare pairs = some verdict) :
    inTurn compare' pairs = some verdict := by
  induction pairs with
  | nil => exact hpairs
  | cons pair pairs ih =>
      unfold inTurn at hpairs ⊢
      split at hpairs
      · rename_i hpair
        rw [h _ _ _ hpair]
        exact ih hpairs
      · rw [h _ _ _ hpairs]
        cases verdict with
        | returned => contradiction
        | assertionError => rfl

section Run

variable {key : κ → σ ⊕ List Char} {volatileFields : List κ} {first second : Value κ σ}

/-- The call for two characters makes the same call again. -/
theorem assert_bothText (n : ℕ) (h : bothText first second = true) :
    assertRecordsEqualNonvolatile key volatileFields n first second = none := by
  induction n generalizing first second with
  | zero => rfl
  | succ n ih =>
      unfold bothText at h
      split at h
      · rename_i c s d t
        have hnext : assertRecordsEqualNonvolatile key volatileFields n (.str [c]) (.str [d]) = none := ih rfl
        rw [assertRecordsEqualNonvolatile_succ]
        simp [calls, Value.iter, inTurn, hnext]
      · cases h

theorem assert_eq_outcome {n : ℕ} (hn : size first + size second < n) :
    assertRecordsEqualNonvolatile key volatileFields n first second =
      outcome (comparisons key volatileFields first second) := by
  induction n generalizing first second with
  | zero => omega
  | succ n ih =>
      cases htext : bothText first second with
      | true => rw [assert_bothText _ htext, comparisons_bothText htext, outcome]
      | false =>
          rw [assertRecordsEqualNonvolatile_succ]
          cases hcalls : calls key volatileFields first second with
          | none => rw [comparisons_none htext hcalls, Option.elim, outcome]
          | some pairs =>
              rw [comparisons_some htext hcalls, Option.elim]
              apply inTurn_eq_outcome
              intro pair hpair
              have hsize := size_calls hcalls htext hpair
              apply ih
              omega

theorem assert_mono {n m : ℕ} (hnm : n ≤ m) {verdict : Verdict}
    (h : assertRecordsEqualNonvolatile key volatileFields n first second = some verdict) :
    assertRecordsEqualNonvolatile key volatileFields m first second = some verdict := by
  induction n generalizing m first second verdict with
  | zero => cases h
  | succ n ih =>
      obtain ⟨m, rfl⟩ := Nat.exists_eq_add_of_lt hnm
      rw [assertRecordsEqualNonvolatile_succ] at h ⊢
      cases hcalls : calls key volatileFields first second with
      | none => rwa [hcalls] at h
      | some pairs =>
          rw [hcalls] at h
          exact inTurn_mono (fun _ _ _ hcall ↦ ih (by omega) hcall) h

/-- What the comparison comes to, whatever the number of calls it needs. -/
theorem exists_assert_iff {verdict : Verdict} :
    (∃ n, assertRecordsEqualNonvolatile key volatileFields n first second = some verdict) ↔
      outcome (comparisons key volatileFields first second) = some verdict := by
  constructor
  · rintro ⟨n, hn⟩
    rw [← assert_eq_outcome (n := n + (size first + size second + 1)) (by omega)]
    exact assert_mono (by omega) hn
  · intro h
    refine ⟨size first + size second + 1, ?_⟩
    rw [assert_eq_outcome (by omega), h]

end Run

/-! ## Records that agree -/

section Agreement

variable (key : κ → σ ⊕ List Char) {volatileFields : List κ} {first second : Value κ σ}

omit [DecidableEq κ] [BEq σ] in
theorem hasText_list_iff {xs : List (Value κ σ)} :
    HasText volatileFields (.list xs) ↔ ∃ x ∈ xs, HasText volatileFields x := by
  constructor
  · rintro (_ | ⟨_, x, hx, h⟩)
    exact ⟨x, hx, h⟩
  · rintro ⟨x, hx, h⟩
    exact .list xs x hx h

omit [DecidableEq κ] [BEq σ] in
theorem hasText_fields_iff {shape : Shape} {keys : List κ} {distinct : keys.Nodup}
    {get : {k // k ∈ keys} → Value κ σ} :
    HasText volatileFields (.fields shape keys distinct get) ↔
      ∃ k : {k // k ∈ keys}, k.1 ∉ volatileFields ∧ HasText volatileFields (get k) := by
  constructor
  · rintro (_ | _ | ⟨_, _, _, _, k, hk, h⟩)
    exact ⟨k, hk, h⟩
  · rintro ⟨k, hk, h⟩
    exact .fields shape keys distinct get k hk h

/-- Records that agree are gone through in pairs that agree. -/
theorem Agree.calls (h : Agree volatileFields first second) :
    ∃ pairs, calls key volatileFields first second = some pairs ∧
      (∀ pair ∈ pairs, Agree volatileFields pair.1 pair.2) ∧
      (bothText first second = false →
        (HasText volatileFields first ↔ ∃ pair ∈ pairs, HasText volatileFields pair.1)) := by
  cases h with
  | scalar x y h =>
      refine ⟨[], by simp [RecordComparison.calls, Value.iter, Value.equal, h], nofun, fun _ ↦ ⟨nofun, ?_⟩⟩
      rintro ⟨_, hpair, _⟩
      cases hpair
  | str s =>
      refine ⟨_, rfl, ?_, ?_⟩
      · intro pair hpair
        rw [List.zip_map, List.mem_map] at hpair
        obtain ⟨⟨c, d⟩, hcd, rfl⟩ := hpair
        rw [List.zip_eq_zipWith, List.zipWith_self, List.mem_map] at hcd
        obtain ⟨_, _, hcd⟩ := hcd
        cases hcd
        exact .str _
      · intro htext
        cases s with
        | nil =>
            constructor
            · rintro (⟨_, h⟩ | _ | _)
              exact absurd rfl h
            · rintro ⟨_, hpair, _⟩
              cases hpair
        | cons c s => cases htext
  | list xs ys h =>
      refine ⟨_, rfl, fun pair hpair ↦ List.forall₂_zip h hpair, fun _ ↦ ?_⟩
      have hfst : (xs.zip ys).map Prod.fst = xs := List.map_fst_zip h.length_eq.le
      rw [hasText_list_iff]
      conv_lhs => rw [← hfst]
      simp only [List.mem_map, exists_exists_and_eq_and]
  | fields shape keys keys' distinct distinct' get get' hkeys hvalues =>
      cases shape with
      | dict =>
          have hsame : sameKeys keys keys' = true :=
            decide_eq_true ⟨fun k hk ↦ (hkeys k).mp hk, fun k hk ↦ (hkeys k).mpr hk⟩
          refine ⟨_, by rw [RecordComparison.calls, if_pos hsame], ?_, fun _ ↦ ?_⟩
          · intro pair hpair
            obtain ⟨k, hk, h, h', rfl⟩ := mem_nonvolatile.mp hpair
            exact hvalues k hk h h'
          · rw [hasText_fields_iff]
            constructor
            · rintro ⟨⟨k, hmem⟩, hk, h⟩
              exact ⟨_, mem_nonvolatile.mpr ⟨k, hk, hmem, (hkeys k).mp hmem, rfl⟩, h⟩
            · rintro ⟨pair, hpair, h⟩
              obtain ⟨k, hk, hmem, _, rfl⟩ := mem_nonvolatile.mp hpair
              exact ⟨⟨k, hmem⟩, hk, h⟩
      | namedtuple | record =>
          refine ⟨_, rfl, ?_, fun _ ↦ ?_⟩
          · rw [List.forall_mem_singleton]
            exact .fields .dict keys keys' distinct distinct' get get' hkeys hvalues
          · simp only [List.mem_singleton, exists_eq_left, hasText_fields_iff]

/-- No difference is found between records that agree, only strings. -/
theorem Agree.comparisons (h : Agree volatileFields first second) :
    (∀ c ∈ comparisons key volatileFields first second, c = .strings) ∧
      (comparisons key volatileFields first second = [] ↔ ¬HasText volatileFields first) := by
  induction hn : size first + size second using Nat.strong_induction_on generalizing first second with
  | _ n ih =>
      cases htext : bothText first second with
      | true =>
          rw [comparisons_bothText htext]
          refine ⟨fun c hc ↦ List.mem_singleton.mp hc, ⟨nofun, fun hno ↦ absurd ?_ hno⟩⟩
          unfold bothText at htext
          split at htext
          · exact .str _ (List.cons_ne_nil _ _)
          · cases htext
      | false =>
          obtain ⟨pairs, hcalls, hagree, hhas⟩ := h.calls key
          have hpairs : ∀ pair ∈ pairs, _ := fun pair hpair ↦
            ih _ (hn ▸ size_calls hcalls htext hpair) (hagree pair hpair) rfl
          rw [comparisons_some htext hcalls, hhas htext]
          constructor
          · intro c hc
            obtain ⟨pair, hpair, hc⟩ := List.mem_flatMap.mp hc
            exact (hpairs pair hpair).1 c hc
          · rw [List.flatMap_eq_nil_iff]
            push Not
            exact forall₂_congr fun pair hpair ↦ (hpairs pair hpair).2

end Agreement

/-- The comparison does what it is for just when, of the differences and the strings it
comes to, a difference is the first, or when there is neither. -/
theorem isExact_iff (key : κ → σ ⊕ List Char) (volatileFields : List κ) (first second : Value κ σ) :
    IsExact key volatileFields first second ↔
      (comparisons key volatileFields first second).head? = some .mismatch ∨
        Agree volatileFields first second ∧ ¬HasText volatileFields first := by
  have hexact : IsExact key volatileFields first second ↔
      ∃ verdict, outcome (comparisons key volatileFields first second) = some verdict ∧
        (verdict = .assertionError ↔ ¬Agree volatileFields first second) := by
    unfold IsExact
    rw [exists_comm]
    simp only [exists_and_right, exists_assert_iff]
  rw [hexact]
  by_cases hagree : Agree volatileFields first second
  · obtain ⟨hstrings, hnil⟩ := hagree.comparisons key
    rw [← hnil]
    cases hc : comparisons key volatileFields first second with
    | nil => simp [outcome, hagree]
    | cons c cs =>
        obtain rfl := hstrings c (hc ▸ List.mem_cons_self)
        simp [outcome]
  · cases comparisons key volatileFields first second with
    | nil => simp [outcome, hagree]
    | cons c cs => cases c <;> simp [outcome, hagree]

/-- `[]` and `[1]` differ, but nothing is raised; the comparison of `"a"` with itself does not end. -/
theorem not_isExact_shorter_text :
    (¬IsExact (fun k : String ↦ (.inr k.toList : ℤ ⊕ List Char)) [] (.list []) (.list [.scalar 1])) ∧
      ¬IsExact (fun k : String ↦ (.inr k.toList : ℤ ⊕ List Char)) [] (.str ['a']) (.str ['a']) := by
  constructor
  · rintro ⟨n, verdict, hn, hverdict⟩
    have hagree : ¬Agree ([] : List String) (.list []) (.list [.scalar (1 : ℤ)]) := by
      rintro (_ | _ | ⟨_, _, h⟩)
      cases h
    have houtcome := exists_assert_iff.mp ⟨n, hn⟩
    rw [comparisons_some rfl rfl, hverdict.mpr hagree] at houtcome
    cases houtcome
  · rintro ⟨n, verdict, hn, _⟩
    rw [assert_bothText n rfl] at hn
    cases hn

end

end OpenHtf.RecordComparison
