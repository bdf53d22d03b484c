import OpenHtf.Lib.Dict

/-!
# Grouping by a key

Pairs are put one after the other into a dict of lists, as into a
`defaultdict(list)`.  `mem_groupPairs_iff` says what is found there.
-/

set_option autoImplicit false

universe u v

variable {κ : Type u} {ν : Type v} [DecidableEq κ]

/-- `d[k].append(v)`. -/
def dictAppend (k : κ) (v : ν) (items : List (κ × List ν)) : List (κ × List ν) :=
  dictSet k ((items.lookup k).getD [] ++ [v]) items

def groupPairs (pairs : List (κ × ν)) : List (κ × List ν) :=
  pairs.foldl (fun items pair ↦ dictAppend pair.1 pair.2 items) []

/-- The values that come with a key. -/
def valuesOf (k : κ) (pairs : List (κ × ν)) : List ν :=
  (pairs.filter fun pair ↦ pair.1 = k).map Prod.snd

theorem lookup_foldl_dictAppend (k : κ) (pairs : List (κ × ν)) (items : List (κ × List ν)) :
    ((pairs.foldl (fun items pair ↦ dictAppend pair.1 pair.2 items) items).lookup k).getD [] =
      (items.lookup k).getD [] ++ valuesOf k pairs := by
  induction pairs generalizing items with
  | nil => simp [valuesOf]
  | cons pair pairs ih =>
      rw [List.foldl_cons, ih, dictAppend, lookup_dictSet]
      by_cases hk : pair.1 = k
      · simp [hk, valuesOf]
      · simp [Ne.symm hk, hk, valuesOf]

theorem lookup_groupPairs (k : κ) (pairs : List (κ × ν)) :
    ((groupPairs pairs).lookup k).getD [] = valuesOf k pairs :=
  lookup_foldl_dictAppend k pairs []

theorem nodup_keys_groupPairs (pairs : List (κ × ν)) : ((groupPairs pairs).map Prod.fst).Nodup := by
  have h : ∀ items : List (κ × List ν), (items.map Prod.fst).Nodup →
      ((pairs.foldl (fun items pair ↦ dictAppend pair.1 pair.2 items) items).map Prod.fst).Nodup := by
    induction pairs with
    | nil => exact fun items hitems ↦ hitems
    | cons pair pairs ih => exact fun items hitems ↦ ih _ (nodup_keys_dictSet hitems _ _)
  exact h [] List.nodup_nil

theorem mem_groupPairs_iff {k : κ} {vs : List ν} {pairs : List (κ × ν)} (hvs : vs ≠ []) :
    (k, vs) ∈ groupPairs pairs ↔ vs = valuesOf k pairs := by
  rw [← lookup_groupPairs]
  constructor
  · intro h
    rw [lookup_of_mem (nodup_keys_groupPairs pairs) h, Option.getD_some]
  · intro h
    cases hlookup : (groupPairs pairs).lookup k with
    | none =>
        rw [hlookup] at h
        exact absurd h hvs
    | some ws =>
        rw [hlookup, Option.getD_some] at h
        rw [h]
        exact mem_of_lookup hlookup
