import Mathlib.Data.List.Basic

/-!
# Dicts as lists of items

A dict is the list of its items in insertion order; `List.lookup` is the lookup
of a key.
-/

set_option autoImplicit false

universe u v

variable {κ : Type u} {ν : Type v} [DecidableEq κ]

/-- `d[k] = v`. -/
def dictSet (k : κ) (v : ν) : List (κ × ν) → List (κ × ν)
  | [] => [(k, v)]
  | (k', v') :: rest => if k' = k then (k, v) :: rest else (k', v') :: dictSet k v rest

theorem dictSet_eq_append {k : κ} {v : ν} {items : List (κ × ν)}
    (h : items.any (·.1 = k) = false) : dictSet k v items = items ++ [(k, v)] := by
  induction items with
  | nil => rfl
  | cons item items ih =>
      simp only [List.any_cons, Bool.or_eq_false_iff, decide_eq_false_iff_not] at h
      simp [dictSet, h.1, ih h.2]

theorem dictSet_ne_nil (k : κ) (v : ν) (items : List (κ × ν)) : dictSet k v items ≠ [] := by
  cases items with
  | nil => simp [dictSet]
  | cons item items =>
      simp only [dictSet]
      split <;> simp

theorem lookup_cons_eq (k k' : κ) (v : ν) (items : List (κ × ν)) :
    ((k, v) :: items).lookup k' = if k' = k then some v else items.lookup k' := by
  by_cases h : k' = k
  · simp [h]
  · simp [List.lookup_cons, h, beq_false_of_ne h]

@[simp] theorem lookup_dictSet (k k' : κ) (v : ν) (items : List (κ × ν)) :
    (dictSet k v items).lookup k' = if k' = k then some v else items.lookup k' := by
  induction items with
  | nil => exact lookup_cons_eq k k' v []
  | cons item items ih =>
      obtain ⟨l, w⟩ := item
      unfold dictSet
      split
      · rename_i hl
        rw [hl, lookup_cons_eq, lookup_cons_eq]
        split <;> rfl
      · rename_i hl
        rw [lookup_cons_eq, lookup_cons_eq, ih]
        by_cases h : k' = l
        · subst h
          simp [hl]
        · simp [h]

/-- A key is there when its lookup finds something. -/
theorem any_key_eq_isSome_lookup (k : κ) (items : List (κ × ν)) :
    (items.any fun item ↦ item.1 == k) = (items.lookup k).isSome := by
  induction items with
  | nil => rfl
  | cons item items ih =>
      obtain ⟨l, w⟩ := item
      rw [List.any_cons, lookup_cons_eq, ih]
      by_cases h : l = k
      · simp [h]
      · simp [h, Ne.symm h]

/-- Setting what is there already. -/
theorem dictSet_eq_self_iff {k : κ} {v : ν} {items : List (κ × ν)} :
    dictSet k v items = items ↔ items.lookup k = some v := by
  constructor
  · intro h
    rw [← h, lookup_dictSet, if_pos rfl]
  · intro h
    induction items with
    | nil => cases h
    | cons item items ih =>
        obtain ⟨l, w⟩ := item
        rw [lookup_cons_eq] at h
        unfold dictSet
        split
        · rename_i hl
          rw [if_pos hl.symm] at h
          rw [hl, Option.some.inj h]
        · rename_i hl
          rw [if_neg (Ne.symm hl)] at h
          rw [ih h]

/-- `d.update(new)`. -/
def dictUpdate (new items : List (κ × ν)) : List (κ × ν) :=
  new.foldl (fun items item ↦ dictSet item.1 item.2 items) items

theorem lookup_dictUpdate_of_not_mem {k : κ} {new : List (κ × ν)} (items : List (κ × ν))
    (h : k ∉ new.map Prod.fst) : (dictUpdate new items).lookup k = items.lookup k := by
  induction new generalizing items with
  | nil => rfl
  | cons item new ih =>
      rw [List.map_cons, List.mem_cons, not_or] at h
      rw [dictUpdate, List.foldl_cons, ← dictUpdate, ih _ h.2, lookup_dictSet, if_neg h.1]

theorem lookup_dictUpdate_of_mem {item : κ × ν} {new : List (κ × ν)} (items : List (κ × ν))
    (hnew : (new.map Prod.fst).Nodup) (h : item ∈ new) :
    (dictUpdate new items).lookup item.1 = some item.2 := by
  induction new generalizing items with
  | nil => cases h
  | cons first new ih =>
      rw [List.map_cons, List.nodup_cons] at hnew
      rw [dictUpdate, List.foldl_cons, ← dictUpdate]
      rcases List.mem_cons.mp h with rfl | h
      · rw [lookup_dictUpdate_of_not_mem _ hnew.1, lookup_dictSet, if_pos rfl]
      · exact ih _ hnew.2 h

/-- An update with items that are there already. -/
theorem dictUpdate_eq_self_iff {new : List (κ × ν)} (items : List (κ × ν)) (hnew : (new.map Prod.fst).Nodup) :
    dictUpdate new items = items ↔ ∀ item ∈ new, items.lookup item.1 = some item.2 := by
  constructor
  · intro h item hitem
    rw [← lookup_dictUpdate_of_mem items hnew hitem, h]
  · intro h
    clear hnew
    induction new with
    | nil => rfl
    | cons item new ih =>
        have hset := dictSet_eq_self_iff.mpr (h item List.mem_cons_self)
        rw [dictUpdate, List.foldl_cons, hset]
        exact ih fun item' hitem' ↦ h item' (List.mem_cons_of_mem _ hitem')

/-! ## Keys -/

/-- `del d[k]`, which is there. -/
def dictErase (k : κ) (items : List (κ × ν)) : List (κ × ν) := items.filter fun item ↦ item.1 ≠ k

theorem lookup_dictErase (k k' : κ) (items : List (κ × ν)) :
    (dictErase k items).lookup k' = if k' = k then none else items.lookup k' := by
  induction items with
  | nil => simp [dictErase]
  | cons item items ih =>
      obtain ⟨l, w⟩ := item
      rw [dictErase, List.filter_cons]
      by_cases hl : l = k
      · rw [if_neg (by simpa using hl), ← dictErase, ih, lookup_cons_eq, hl]
        by_cases hk : k' = k <;> simp [hk]
      · rw [if_pos (by simpa using hl), ← dictErase, lookup_cons_eq, ih, lookup_cons_eq]
        by_cases hk : k' = k
        · simp [hk, Ne.symm hl]
        · simp [hk]

theorem mem_of_mem_dictErase {k : κ} {items : List (κ × ν)} {item : κ × ν}
    (h : item ∈ dictErase k items) : item ∈ items := List.mem_of_mem_filter h

theorem nodup_keys_dictErase {k : κ} {items : List (κ × ν)} (h : (items.map Prod.fst).Nodup) :
    ((dictErase k items).map Prod.fst).Nodup :=
  h.sublist ((List.filter_sublist).map Prod.fst)

omit [DecidableEq κ] in
theorem nodup_keys_append {k : κ} {v : ν} {items : List (κ × ν)} (h : (items.map Prod.fst).Nodup)
    (hk : k ∉ items.map Prod.fst) : ((items ++ [(k, v)]).map Prod.fst).Nodup := by
  rw [List.map_append, List.nodup_append]
  refine ⟨h, by simp, fun a ha b hb ↦ ?_⟩
  obtain rfl : b = k := by simpa using hb
  exact fun heq ↦ hk (heq ▸ ha)

theorem mem_of_lookup {k : κ} {v : ν} {items : List (κ × ν)} (h : items.lookup k = some v) :
    (k, v) ∈ items := by
  induction items with
  | nil => cases h
  | cons item items ih =>
      obtain ⟨l, w⟩ := item
      rw [lookup_cons_eq] at h
      split at h
      · rename_i hk
        rw [hk, Option.some.inj h]
        exact List.mem_cons_self
      · exact List.mem_cons_of_mem _ (ih h)

theorem lookup_of_mem {k : κ} {v : ν} {items : List (κ × ν)} (hnodup : (items.map Prod.fst).Nodup)
    (h : (k, v) ∈ items) : items.lookup k = some v := by
  induction items with
  | nil => cases h
  | cons item items ih =>
      rw [List.map_cons, List.nodup_cons] at hnodup
      rcases List.mem_cons.mp h with rfl | h
      · rw [lookup_cons_eq, if_pos rfl]
      · have hne : k ≠ item.1 := by
          rintro rfl
          exact hnodup.1 (List.mem_map.mpr ⟨_, h, rfl⟩)
        rw [lookup_cons_eq, if_neg hne]
        exact ih hnodup.2 h

/-- What a dict says does not depend on the order of its items. -/
theorem lookup_perm {items items' : List (κ × ν)} (hperm : items.Perm items')
    (hnodup : (items.map Prod.fst).Nodup) (k : κ) : items.lookup k = items'.lookup k := by
  have hnodup' := (hperm.map Prod.fst).nodup_iff.mp hnodup
  cases hlookup : items.lookup k with
  | some v => exact (lookup_of_mem hnodup' (hperm.mem_iff.mp (mem_of_lookup hlookup))).symm
  | none =>
      cases hlookup' : items'.lookup k with
      | none => rfl
      | some v =>
          rw [lookup_of_mem hnodup (hperm.mem_iff.mpr (mem_of_lookup hlookup'))] at hlookup
          cases hlookup

theorem lookup_eq_none_of_not_mem {k : κ} {items : List (κ × ν)} (h : k ∉ items.map Prod.fst) :
    items.lookup k = none := by
  cases hl : items.lookup k with
  | none => rfl
  | some v => exact absurd (List.mem_map_of_mem (mem_of_lookup hl)) h

/-! ## Lengths -/

theorem dictSet_of_not_mem {k : κ} {items : List (κ × ν)} (h : k ∉ items.map Prod.fst) (v : ν) :
    dictSet k v items = items ++ [(k, v)] := by
  refine dictSet_eq_append (List.any_eq_false.mpr fun item hitem ↦ ?_)
  simpa using fun heq : item.1 = k ↦ h (heq ▸ List.mem_map_of_mem hitem)

theorem keys_dictSet_of_mem {k : κ} {items : List (κ × ν)} (h : k ∈ items.map Prod.fst) (v : ν) :
    (dictSet k v items).map Prod.fst = items.map Prod.fst := by
  induction items with
  | nil => cases h
  | cons item items ih =>
      obtain ⟨l, w⟩ := item
      unfold dictSet
      split
      · rename_i hl
        rw [List.map_cons, List.map_cons, hl]
      · rename_i hl
        rw [List.map_cons, List.map_cons, ih]
        exact (List.mem_cons.mp h).resolve_left (Ne.symm hl)

theorem length_dictSet_of_mem {k : κ} {items : List (κ × ν)} (h : k ∈ items.map Prod.fst) (v : ν) :
    (dictSet k v items).length = items.length := by
  simpa using congrArg List.length (keys_dictSet_of_mem h v)

theorem length_dictSet_le (k : κ) (v : ν) (items : List (κ × ν)) :
    (dictSet k v items).length ≤ items.length + 1 := by
  by_cases h : k ∈ items.map Prod.fst
  · rw [length_dictSet_of_mem h]
    exact Nat.le_succ _
  · rw [dictSet_of_not_mem h]
    simp

theorem nodup_keys_dictSet {items : List (κ × ν)} (h : (items.map Prod.fst).Nodup) (k : κ) (v : ν) :
    ((dictSet k v items).map Prod.fst).Nodup := by
  by_cases hk : k ∈ items.map Prod.fst
  · rwa [keys_dictSet_of_mem hk]
  · rw [dictSet_of_not_mem hk]
    exact nodup_keys_append h hk

theorem keys_dictErase (k : κ) (items : List (κ × ν)) :
    (dictErase k items).map Prod.fst = (items.map Prod.fst).filter (· != k) := by
  rw [dictErase, List.filter_map]
  exact congrArg _ (List.filter_congr fun item _ ↦ by simp [bne, beq_eq_decide])

theorem dictErase_of_not_mem {k : κ} {items : List (κ × ν)} (h : k ∉ items.map Prod.fst) :
    dictErase k items = items := by
  refine List.filter_eq_self.mpr fun item hitem ↦ decide_eq_true ?_
  rintro rfl
  exact h (List.mem_map_of_mem hitem)

theorem length_dictErase {k : κ} {items : List (κ × ν)} (hnodup : (items.map Prod.fst).Nodup)
    (hk : k ∈ items.map Prod.fst) : (dictErase k items).length + 1 = items.length := by
  have hkeys := keys_dictErase k items
  rw [← hnodup.erase_eq_filter] at hkeys
  have hlength := congrArg List.length hkeys
  rw [List.length_erase_of_mem hk, List.length_map, List.length_map] at hlength
  have hpos : 0 < items.length := by simpa using List.length_pos_of_mem hk
  omega

/-- The new items are all there afterwards, and so are the old ones. -/
def Adds (new items : List (κ × ν)) : Prop :=
  (new.map Prod.fst).Nodup ∧ ∀ k ∈ new.map Prod.fst, k ∉ items.map Prod.fst

omit [DecidableEq κ] in
theorem adds_cons {item : κ × ν} {new items : List (κ × ν)} :
    Adds (item :: new) items ↔ item.1 ∉ items.map Prod.fst ∧ Adds new (items ++ [item]) := by
  simp only [Adds, List.map_cons, List.nodup_cons, List.mem_cons, List.map_append, List.mem_append,
    List.map_nil, List.not_mem_nil, or_false, not_or]
  constructor
  · rintro ⟨⟨hnew, hnodup⟩, hall⟩
    exact ⟨hall _ (.inl rfl), hnodup, fun k hk ↦ ⟨hall k (.inr hk), fun heq ↦ hnew (heq ▸ hk)⟩⟩
  · rintro ⟨hitem, hnodup, hall⟩
    refine ⟨⟨fun hk ↦ (hall _ hk).2 rfl, hnodup⟩, fun k hk ↦ ?_⟩
    rcases hk with rfl | hk
    · exact hitem
    · exact (hall k hk).1

theorem Adds.dictUpdate_eq {new items : List (κ × ν)} (h : Adds new items) :
    dictUpdate new items = items ++ new := by
  induction new generalizing items with
  | nil => exact (List.append_nil items).symm
  | cons item new ih =>
      obtain ⟨hitem, hrest⟩ := adds_cons.mp h
      rw [dictUpdate, List.foldl_cons, ← dictUpdate, dictSet_of_not_mem hitem, ih hrest]
      simp

theorem length_dictUpdate_le (new items : List (κ × ν)) :
    (dictUpdate new items).length ≤ items.length + new.length := by
  induction new generalizing items with
  | nil => exact Nat.le_refl _
  | cons item new ih =>
      have hset := length_dictSet_le item.1 item.2 items
      have hrest := ih (dictSet item.1 item.2 items)
      rw [dictUpdate, List.foldl_cons, ← dictUpdate, List.length_cons]
      omega

/-- An update that does not add all its items replaces one. -/
theorem length_dictUpdate_lt {new items : List (κ × ν)} (h : ¬Adds new items) :
    (dictUpdate new items).length < items.length + new.length := by
  induction new generalizing items with
  | nil => exact absurd ⟨List.nodup_nil, by simp⟩ h
  | cons item new ih =>
      rw [dictUpdate, List.foldl_cons, ← dictUpdate, List.length_cons]
      by_cases hitem : item.1 ∈ items.map Prod.fst
      · have hrest := length_dictUpdate_le new (dictSet item.1 item.2 items)
        rw [length_dictSet_of_mem hitem] at hrest
        omega
      · rw [adds_cons, not_and] at h
        have hrest : (dictUpdate new (items ++ [(item.1, item.2)])).length < _ := ih (h hitem)
        rw [List.length_append, List.length_singleton] at hrest
        rw [dictSet_of_not_mem hitem]
        omega

theorem nodup_keys_dictUpdate {items : List (κ × ν)} (h : (items.map Prod.fst).Nodup)
    (new : List (κ × ν)) : ((dictUpdate new items).map Prod.fst).Nodup := by
  induction new generalizing items with
  | nil => exact h
  | cons item new ih => exact ih (nodup_keys_dictSet h item.1 item.2)

/-! ## Dicts -/

/-- A dict: no key occurs twice. -/
structure Dict (κ : Type u) (ν : Type v) where
  items : List (κ × ν)
  nodup : (items.map Prod.fst).Nodup

namespace Dict

omit [DecidableEq κ] in
@[ext] theorem ext {d d' : Dict κ ν} (h : d.items = d'.items) : d = d' := by
  cases d
  cases d'
  cases h
  rfl

def keys (d : Dict κ ν) : List κ := d.items.map Prod.fst

/-- `d[k] = v`. -/
def set (d : Dict κ ν) (k : κ) (v : ν) : Dict κ ν :=
  ⟨dictSet k v d.items, nodup_keys_dictSet d.nodup k v⟩

/-- `d.pop(k)`, where `k` is there. -/
def erase (d : Dict κ ν) (k : κ) : Dict κ ν := ⟨dictErase k d.items, nodup_keys_dictErase d.nodup⟩

def lookup (d : Dict κ ν) (k : κ) : Option ν := d.items.lookup k

/-- `d.update(new)`. -/
def update (d : Dict κ ν) (new : List (κ × ν)) : Dict κ ν :=
  ⟨dictUpdate new d.items, nodup_keys_dictUpdate d.nodup new⟩

theorem items_set_of_not_mem {k : κ} {d : Dict κ ν} (h : k ∉ d.keys) (v : ν) :
    (d.set k v).items = d.items ++ [(k, v)] := dictSet_of_not_mem h v

/-- A key is there when it is set or was there before. -/
theorem isSome_lookup_foldl_set (f : κ → ν) (keys : List κ) (d : Dict κ ν) (k : κ) :
    ((keys.foldl (fun d k ↦ d.set k (f k)) d).lookup k).isSome = true ↔ k ∈ keys ∨ (d.lookup k).isSome = true := by
  induction keys generalizing d with
  | nil => simp
  | cons l keys ih =>
      have hset : (d.set l (f l)).lookup k = if k = l then some (f l) else d.lookup k :=
        lookup_dictSet l k (f l) d.items
      rw [List.foldl_cons, ih, hset, List.mem_cons]
      by_cases hk : k = l <;> simp [hk]

theorem lookup_of_mem_items {k : κ} {v : ν} {d : Dict κ ν} (h : (k, v) ∈ d.items) :
    d.lookup k = some v := lookup_of_mem d.nodup h

theorem lookup_update_of_not_mem {k : κ} {new : List (κ × ν)} (d : Dict κ ν)
    (h : k ∉ new.map Prod.fst) : (d.update new).lookup k = d.lookup k :=
  lookup_dictUpdate_of_not_mem d.items h

/-- A dictionary that is built from the items of another one, in any order, is that one. -/
theorem lookup_update_perm {new : List (κ × ν)} {d : Dict κ ν} (hperm : new.Perm d.items) (k : κ) :
    (update ⟨[], List.nodup_nil⟩ new).lookup k = d.lookup k := by
  have hnodup := (hperm.map Prod.fst).nodup_iff.mpr d.nodup
  have hadds : Adds new [] := ⟨hnodup, fun k _ ↦ List.not_mem_nil⟩
  have hitems : dictUpdate new [] = new := by rw [hadds.dictUpdate_eq, List.nil_append]
  exact (congrArg (List.lookup k) hitems).trans (lookup_perm hperm hnodup k)

theorem lookup_update (d new : Dict κ ν) (k : κ) :
    (d.update new.items).lookup k = (new.lookup k).or (d.lookup k) := by
  cases hnew : new.lookup k with
  | some v => exact lookup_dictUpdate_of_mem d.items new.nodup (mem_of_lookup hnew)
  | none =>
      rw [Option.none_or]
      apply lookup_update_of_not_mem
      intro hk
      obtain ⟨item, hitem, rfl⟩ := List.mem_map.mp hk
      rw [lookup_of_mem_items hitem] at hnew
      cases hnew

omit [DecidableEq κ] in
theorem nodup_keys_filterMap {μ : Type*} (f : κ → ν → Option μ) {items : List (κ × ν)}
    (h : (items.map Prod.fst).Nodup) :
    ((items.filterMap fun item ↦ (f item.1 item.2).map (Prod.mk item.1)).map Prod.fst).Nodup := by
  refine h.sublist ?_
  induction items with
  | nil => exact List.Sublist.refl _
  | cons item items ih =>
      have hrest := ih (List.nodup_cons.mp h).2
      cases hf : f item.1 item.2 with
      | none => simpa [hf] using hrest.cons item.1
      | some w => simpa [hf] using hrest

/-- `{k: w for k, v in d.items() if ...}`, where `f` says what `w` is and whether
the item stays. -/
def filterMap {μ : Type*} (f : κ → ν → Option μ) (d : Dict κ ν) : Dict κ μ :=
  ⟨d.items.filterMap fun item ↦ (f item.1 item.2).map (Prod.mk item.1), nodup_keys_filterMap f d.nodup⟩

theorem lookup_filterMap {μ : Type*} (f : κ → ν → Option μ) (d : Dict κ ν) (k : κ) :
    (d.filterMap f).lookup k = (d.lookup k).bind (f k) := by
  obtain ⟨items, hnodup⟩ := d
  change List.lookup k (items.filterMap fun item ↦ (f item.1 item.2).map (Prod.mk item.1)) =
    (items.lookup k).bind (f k)
  induction items with
  | nil => rfl
  | cons item items ih =>
      obtain ⟨l, v⟩ := item
      rw [List.map_cons, List.nodup_cons] at hnodup
      have hrest := ih hnodup.2
      by_cases hk : k = l
      · subst hk
        rw [lookup_eq_none_of_not_mem hnodup.1, Option.bind_none] at hrest
        cases hf : f k v with
        | none => simp [hf, hrest]
        | some w => simp [hf]
      · rw [lookup_cons_eq, if_neg hk, ← hrest]
        cases hf : f l v with
        | none => simp [hf]
        | some w => simp [hf, lookup_cons_eq, hk]

end Dict
