import OpenHtf.Lib.Dict
import OpenHtf.UniqueNameMaker
import Mathlib.Data.Char
import Mathlib.Data.List.Lex
import Mathlib.Data.List.Sort

/-!
# Unique names in the mfg event

`convert_multidim_measurements` and `phase_uniquizer`: measurements with
dimensions become attachments, and names that occur more than once get an index.
What a measurement or an attachment holds besides is not looked at.
-/

set_option autoImplicit false

namespace OpenHtf.UniqueNames

/-! ## The data -/

structure Measurement (δ β : Type) where
  name : Name
  dimensions : Option (List δ)
  content : β
  deriving DecidableEq

structure Phase (δ β α : Type) where
  measurements : Dict Name (Measurement δ β)
  attachments : Dict Name α

variable {δ β α ν : Type}

/-- `sorted(d.items())`, where no two items have the same key. -/
def sortedItems (d : Dict Name ν) : List (Name × ν) := d.items.insertionSort fun a b ↦ a.1 ≤ b.1

namespace Measurement

/-- `measurement.dimensions is not None`. -/
def hasDimensions (m : Measurement δ β) : Bool := m.dimensions.isSome

/-- `if measurement.dimensions`. -/
def isMultidim (m : Measurement δ β) : Bool :=
  match m.dimensions with
  | some (_ :: _) => true
  | _ => false

def setName (name : Name) (m : Measurement δ β) : Measurement δ β := { m with name := name }

end Measurement

/-- `'multidim_%s' % name`. -/
def multidim (name : Name) : Name := ['m', 'u', 'l', 't', 'i', 'd', 'i', 'm', '_'] ++ name

/-! ## The passes -/

def attachmentNames (phases : List (Phase δ β α)) : List Name :=
  phases.flatMap (·.attachments.keys) ++
    phases.flatMap fun p ↦ (p.measurements.items.filter (·.2.hasDimensions)).map (multidim ·.1)

/-- The body of the loop over the measurements in `convert_multidim_measurements`. -/
def convertMeasurement (toAttachment : Name → Measurement δ β → α)
    (s : UniqueNameMaker × Phase δ β α) (item : Name × Measurement δ β) :
    Option (UniqueNameMaker × Phase δ β α) := do
  if item.2.isMultidim then
    let (name, maker) ← s.1.makeUnique (multidim item.1)
    return (maker, {
      measurements := s.2.measurements.erase item.1
      attachments := s.2.attachments.set name (toAttachment name item.2) })
  else return s

def convertPhases (toAttachment : Name → Measurement δ β → α) :
    UniqueNameMaker → List (Phase δ β α) → Option (List (Phase δ β α))
  | _, [] => some []
  | maker, p :: phases => do
    let (maker, p) ← (sortedItems p.measurements).foldlM (convertMeasurement toAttachment) (maker, p)
    let phases ← convertPhases toAttachment maker phases
    return p :: phases

def convertMultidimMeasurements (toAttachment : Name → Measurement δ β → α)
    (phases : List (Phase δ β α)) : Option (List (Phase δ β α)) :=
  convertPhases toAttachment { allNames := attachmentNames phases } phases

/-- The body of the loops in `phase_uniquizer`: a value gets another key. -/
def renameKey (setName : Name → ν → ν) (s : UniqueNameMaker × Dict Name ν) (item : Name × ν) :
    Option (UniqueNameMaker × Dict Name ν) := do
  let (name, maker) ← s.1.makeUnique item.1
  let value ← s.2.lookup item.1
  return (maker, (s.2.erase item.1).set name (setName name value))

def renameKeys (setName : Name → ν → ν) (maker : UniqueNameMaker) (d : Dict Name ν) :
    Option (UniqueNameMaker × Dict Name ν) :=
  (sortedItems d).foldlM (renameKey setName) (maker, d)

def uniquizePhases : UniqueNameMaker → UniqueNameMaker → List (Phase δ β α) →
    Option (List (Phase δ β α))
  | _, _, [] => some []
  | measurementMaker, attachmentMaker, p :: phases => do
    let (measurementMaker, measurements) ← renameKeys Measurement.setName measurementMaker p.measurements
    let (attachmentMaker, attachments) ← renameKeys (fun _ a ↦ a) attachmentMaker p.attachments
    let phases ← uniquizePhases measurementMaker attachmentMaker phases
    return ⟨measurements, attachments⟩ :: phases

def phaseUniquizer (phases : List (Phase δ β α)) : Option (List (Phase δ β α)) :=
  uniquizePhases { allNames := phases.flatMap (·.measurements.keys) }
    { allNames := attachmentNames phases } phases

/-! ## What is kept -/

namespace Phase

/-- The measurements that become attachments, and those that do not. -/
def multidims (p : Phase δ β α) : List (Name × Measurement δ β) :=
  (sortedItems p.measurements).filter (·.2.isMultidim)

def singles (p : Phase δ β α) : List (Name × Measurement δ β) :=
  p.measurements.items.filter (!·.2.isMultidim)

end Phase

/-- Every measurement without dimensions is there once. -/
def KeepsMeasurements (p p' : Phase δ β α) : Prop :=
  (p'.measurements.items.map fun item ↦ (item.2.dimensions, item.2.content)).Perm
    (p.singles.map fun item ↦ (item.2.dimensions, item.2.content))

/-- Every attachment is there once, and every measurement with dimensions once as
an attachment under some name. -/
def KeepsAttachments (toAttachment : Name → Measurement δ β → α) (p p' : Phase δ β α) : Prop :=
  ∃ names : List Name, names.length = p.multidims.length ∧
    (p'.attachments.items.map Prod.snd).Perm (p.attachments.items.map Prod.snd ++
      List.zipWith (fun name item ↦ toAttachment name item.2) names p.multidims)

structure NothingLost (toAttachment : Name → Measurement δ β → α) (phases phases' : List (Phase δ β α)) :
    Prop where
  measurementNames : (phases'.flatMap (·.measurements.keys)).Nodup
  attachmentNames : (phases'.flatMap (·.attachments.keys)).Nodup
  measurements : List.Forall₂ KeepsMeasurements phases phases'
  attachments : List.Forall₂ (KeepsAttachments toAttachment) phases phases'

/-! ## The condition -/

/-- The names of the attachments that are made of the measurements of the phase. -/
def Phase.multidimNames (p : Phase δ β α) : List Name := p.multidims.map (multidim ·.1)

/-- In the conversion no name with an index is that of an attachment of the phase,
or one that the conversion gives without an index in the same phase. -/
def ConvertsFreshIn (maker : UniqueNameMaker) (p : Phase δ β α) : Prop :=
  ∀ name ∈ p.multidimNames, maker.Repeated name → maker.newName name ∉ p.attachments.keys ∧
    (maker.newName name ∈ p.multidimNames → maker.Repeated (maker.newName name))

def ConvertsFresh : UniqueNameMaker → List (Phase δ β α) → Prop
  | _, [] => True
  | maker, p :: phases => ConvertsFreshIn maker p ∧ ConvertsFresh (maker.sees p.multidimNames) phases

/-- The names of the attachments after the conversion. -/
def convertedNames : UniqueNameMaker → List (Phase δ β α) → List (List Name)
  | _, [] => []
  | maker, p :: phases =>
    (p.attachments.keys ++ p.multidimNames.map maker.newName) ::
      convertedNames (maker.sees p.multidimNames) phases

/-- The renaming of the names of all phases loses none of them. -/
def RenamesFresh (maker : UniqueNameMaker) (all : List (List Name)) : Prop :=
  maker.EachPhase UniqueNameMaker.FreshIn all ∧ maker.EachPhase (UniqueNameMaker.FreshAmong all) all

/-- The names of the phases' measurements that stay measurements. -/
def singleNames (phases : List (Phase δ β α)) : List (List Name) :=
  phases.map fun p ↦ p.singles.map Prod.fst

/-- What `phase_uniquizer` takes for the names of the attachments. -/
def announcedNames (phases : List (Phase δ β α)) : List Name :=
  (convertedNames { allNames := attachmentNames phases } phases).flatten ++
    phases.flatMap fun p ↦ (p.singles.filter (·.2.hasDimensions)).map (multidim ·.1)

/-- No name with an index is that of something else in the same phase, or a name
that gets no index. -/
structure NoClash (phases : List (Phase δ β α)) : Prop where
  measurements : RenamesFresh { allNames := (singleNames phases).flatten } (singleNames phases)
  converted : ConvertsFresh { allNames := attachmentNames phases } phases
  attachments : RenamesFresh { allNames := announcedNames phases }
    (convertedNames { allNames := attachmentNames phases } phases)

/-! ## The keys of one dict are renamed -/

section RenameKeys

variable (setName : Name → ν → ν) (maker : UniqueNameMaker) {d : Dict Name ν}
  {item : Name × ν} {todo : List (Name × ν)}

theorem mem_keys_erase {k k' : Name} : k' ∈ (d.erase k).keys ↔ k' ∈ d.keys ∧ k' ≠ k := by
  rw [Dict.keys, Dict.erase, keys_dictErase]
  simp [Dict.keys]

/-- One key gets its new name. -/
theorem renameKey_eq (hcounted : item.1 ∈ maker.allNames) (hkey : item.1 ∈ d.keys) :
    ∃ value, renameKey setName (maker, d) item = some (maker.sees [item.1],
      (d.erase item.1).set (maker.newName item.1) (setName (maker.newName item.1) value)) := by
  cases hvalue : d.lookup item.1 with
  | none =>
      obtain ⟨item', hitem', heq⟩ := List.mem_map.mp hkey
      have hsome : d.lookup item.1 = some item'.2 := lookup_of_mem d.nodup (heq ▸ hitem')
      rw [hvalue] at hsome
      cases hsome
  | some value =>
      refine ⟨value, ?_⟩
      simp [renameKey, UniqueNameMaker.makeUnique_eq hcounted, hvalue]

theorem length_rename_le (hkey : item.1 ∈ d.keys) (name : Name) (value : ν) :
    ((d.erase item.1).set name value).items.length ≤ d.items.length := by
  have herase := length_dictErase d.nodup hkey
  exact (length_dictSet_le name value (d.erase item.1).items).trans herase.le

/-- The new name is that of something else. -/
theorem length_rename_lt (hkey : item.1 ∈ d.keys) {name : Name} (hname : name ∈ d.keys)
    (hne : name ≠ item.1) (value : ν) :
    ((d.erase item.1).set name value).items.length < d.items.length := by
  have herase := length_dictErase d.nodup hkey
  have hset := length_dictSet_of_mem (mem_keys_erase.mpr ⟨hname, hne⟩) value
  exact (hset.trans_lt (Nat.lt_succ_self _)).trans_eq herase

theorem mem_keys_set {k name : Name} {value : ν} (hk : k ∈ d.keys) : k ∈ (d.set name value).keys := by
  change k ∈ (dictSet name value d.items).map Prod.fst
  by_cases hname : name ∈ d.keys
  · rwa [keys_dictSet_of_mem hname]
  · rw [dictSet_of_not_mem hname, List.map_append]
    exact List.mem_append.mpr (.inl hk)

/-- However the names clash, the loop ends, and it adds nothing. -/
theorem foldlM_renameKey (hnodup : (todo.map Prod.fst).Nodup)
    (hcounted : ∀ item ∈ todo, item.1 ∈ maker.allNames) (hkeys : ∀ item ∈ todo, item.1 ∈ d.keys) :
    ∃ d', todo.foldlM (renameKey setName) (maker, d) = some (maker.sees (todo.map Prod.fst), d') ∧
      d'.items.length ≤ d.items.length ∧ ∀ k ∈ d.keys, k ∉ todo.map Prod.fst → k ∈ d'.keys := by
  induction todo generalizing maker d with
  | nil => exact ⟨d, by simp, Nat.le_refl _, fun k hk _ ↦ hk⟩
  | cons item todo ih =>
      rw [List.map_cons, List.nodup_cons] at hnodup
      have hkey := hkeys item (by simp)
      obtain ⟨value, hitem⟩ := renameKey_eq setName maker (hcounted item (by simp)) hkey
      have hkept : ∀ k ∈ d.keys, k ≠ item.1 → k ∈ ((d.erase item.1).set (maker.newName item.1)
          (setName (maker.newName item.1) value)).keys :=
        fun k hk hne ↦ mem_keys_set (mem_keys_erase.mpr ⟨hk, hne⟩)
      obtain ⟨d', hd', hle, hmem⟩ := ih (maker.sees [item.1]) hnodup.2
        (fun item' h ↦ hcounted item' (by simp [h])) (fun item' h ↦ hkept item'.1 (hkeys item' (by simp [h]))
          fun heq ↦ hnodup.1 (List.mem_map.mpr ⟨item', h, heq⟩))
      refine ⟨d', ?_, hle.trans (length_rename_le hkey _ _), fun k hk hnot ↦ ?_⟩
      · rw [List.map_cons, ← UniqueNameMaker.sees_sees hnodup.1, List.foldlM_cons, hitem]
        exact hd'
      · rw [List.map_cons, List.mem_cons, not_or] at hnot
        exact hmem k (hkept k hk hnot.1) hnot.2

/-- A new name that is still to be renamed is lost. -/
theorem foldlM_renameKey_lt {pre post : List (Name × ν)}
    (hnodup : ((pre ++ item :: post).map Prod.fst).Nodup)
    (hcounted : ∀ item' ∈ pre ++ item :: post, item'.1 ∈ maker.allNames)
    (hkeys : ∀ item' ∈ pre ++ item :: post, item'.1 ∈ d.keys)
    (hclash : maker.newName item.1 ∈ post.map Prod.fst) :
    ∃ d', (pre ++ item :: post).foldlM (renameKey setName) (maker, d) =
      some (maker.sees ((pre ++ item :: post).map Prod.fst), d') ∧ d'.items.length < d.items.length := by
  obtain ⟨d', hd', hle, -⟩ := foldlM_renameKey setName maker hnodup hcounted hkeys
  refine ⟨d', hd', ?_⟩
  rw [List.map_append, List.map_cons, List.nodup_append'] at hnodup
  obtain ⟨hpre, hrest, hdisjoint⟩ := hnodup
  obtain ⟨d₁, hd₁, hle₁, hmem₁⟩ := foldlM_renameKey setName maker hpre
    (fun item' h ↦ hcounted item' (by simp [h])) (fun item' h ↦ hkeys item' (by simp [h]))
  have hmem : ∀ item' ∈ item :: post, item'.1 ∈ d₁.keys := fun item' h ↦
    hmem₁ _ (hkeys item' (List.mem_append.mpr (.inr h))) fun hin ↦
      hdisjoint hin (List.mem_map_of_mem h)
  have hitem := hmem item (by simp)
  have hsame : (maker.sees (pre.map Prod.fst)).newName item.1 = maker.newName item.1 :=
    UniqueNameMaker.newName_sees_of_not_mem fun hin ↦ hdisjoint hin (by simp)
  obtain ⟨value, hstep⟩ := renameKey_eq setName (maker.sees (pre.map Prod.fst))
    (hcounted item (by simp)) hitem
  rw [hsame] at hstep
  obtain ⟨newName, hmemNew, hne⟩ : ∃ item' ∈ post, item'.1 = maker.newName item.1 :=
    List.mem_map.mp hclash
  have hlt := length_rename_lt hitem (hne ▸ hmem newName (by simp [hmemNew]))
    (fun heq ↦ (List.nodup_cons.mp hrest).1 (heq ▸ hclash)) (setName (maker.newName item.1) value)
  obtain ⟨d₂, hd₂, hle₂, -⟩ := foldlM_renameKey setName
    ((maker.sees (pre.map Prod.fst)).sees [item.1]) (List.nodup_cons.mp hrest).2
    (fun item' h ↦ hcounted item' (by simp [h]))
    (fun item' h ↦ mem_keys_set (mem_keys_erase.mpr ⟨hmem item' (by simp [h]), fun heq ↦
      (List.nodup_cons.mp hrest).1 (List.mem_map.mpr ⟨item', h, heq⟩)⟩))
  rw [List.foldlM_append, hd₁, Option.bind_eq_bind, Option.bind_some, List.foldlM_cons, hstep,
    Option.bind_eq_bind, Option.bind_some, hd₂] at hd'
  obtain ⟨-, rfl⟩ := Prod.mk.inj (Option.some.inj hd')
  omega

/-- Without a clash each key gets its new name, one after the other.  `kept` are the
items to come and `done` those that have been renamed. -/
theorem foldlM_renameKey_fresh {kept done : List (Name × ν)} (hitems : d.items = kept ++ done)
    (hperm : kept.Perm todo) (hnodup : (todo.map Prod.fst).Nodup)
    (hcounted : ∀ item ∈ todo, item.1 ∈ maker.allNames) (hfresh : maker.FreshIn (todo.map Prod.fst))
    (hdone : ∀ k ∈ done.map Prod.fst, k ∉ todo.map Prod.fst ∧ ∀ item ∈ todo, maker.newName item.1 ≠ k) :
    ∃ d', todo.foldlM (renameKey setName) (maker, d) = some (maker.sees (todo.map Prod.fst), d') ∧
      d'.items = done ++ todo.map fun item ↦
        (maker.newName item.1, setName (maker.newName item.1) item.2) := by
  induction todo generalizing maker d kept done with
  | nil =>
      obtain rfl := hperm.eq_nil
      exact ⟨d, by simp, by simpa using hitems⟩
  | cons item todo ih =>
      have hmem : item ∈ d.items := by
        rw [hitems]
        exact List.mem_append.mpr (.inl (hperm.mem_iff.mpr (by simp)))
      have hvalue : d.lookup item.1 = some item.2 := lookup_of_mem d.nodup hmem
      have hstep : renameKey setName (maker, d) item = some (maker.sees [item.1],
          (d.erase item.1).set (maker.newName item.1) (setName (maker.newName item.1) item.2)) := by
        simp [renameKey, UniqueNameMaker.makeUnique_eq (hcounted item (by simp)), hvalue]
      rw [List.map_cons] at hnodup hfresh
      obtain ⟨hnot, hnodup⟩ := List.nodup_cons.mp hnodup
      -- The new name is none of those to come.
      have hnew : maker.newName item.1 ∉ todo.map Prod.fst := by
        by_cases hrep : maker.Repeated item.1
        · exact fun hin ↦ hfresh item.1 (by simp) hrep (List.mem_cons_of_mem _ hin)
        · rwa [UniqueNameMaker.newName_of_not_repeated hrep]
      have herase : dictErase item.1 d.items = dictErase item.1 kept ++ done := by
        have hself : dictErase item.1 done = done :=
          dictErase_of_not_mem fun hin ↦ (hdone item.1 hin).1 (by simp)
        rw [hitems, dictErase, List.filter_append, ← dictErase, ← dictErase, hself]
      have hkept : (dictErase item.1 kept).Perm todo := by
        have hfilter := hperm.filter fun item' ↦ decide (item'.1 ≠ item.1)
        rw [List.filter_cons_of_neg (by simp), ← dictErase, ← dictErase, dictErase_of_not_mem hnot] at hfilter
        exact hfilter
      have hnewKey : maker.newName item.1 ∉ (dictErase item.1 d.items).map Prod.fst := by
        rw [herase, List.map_append, List.mem_append, not_or]
        exact ⟨fun hin ↦ hnew ((hkept.map Prod.fst).mem_iff.mp hin),
          fun hin ↦ (hdone _ hin).2 item (by simp) rfl⟩
      have hitems₁ : ((d.erase item.1).set (maker.newName item.1)
          (setName (maker.newName item.1) item.2)).items = dictErase item.1 kept ++
            (done ++ [(maker.newName item.1, setName (maker.newName item.1) item.2)]) := by
        change dictSet _ _ (dictErase item.1 d.items) = _
        rw [dictSet_of_not_mem hnewKey, herase, List.append_assoc]
      have hsame : ∀ item' ∈ todo, (maker.sees [item.1]).newName item'.1 = maker.newName item'.1 :=
        fun item' h ↦ UniqueNameMaker.newName_sees_of_not_mem fun hin ↦
          hnot (List.mem_map.mpr ⟨item', h, List.mem_singleton.mp hin⟩)
      have hfresh₁ : (maker.sees [item.1]).FreshIn (todo.map Prod.fst) := by
        intro name hname hrep hin
        obtain ⟨item', hitem', rfl⟩ := List.mem_map.mp hname
        rw [hsame item' hitem'] at hin
        exact hfresh item'.1 (List.mem_cons_of_mem _ hname) hrep (List.mem_cons_of_mem _ hin)
      have hdone₁ : ∀ k ∈ (done ++ [(maker.newName item.1,
          setName (maker.newName item.1) item.2)]).map Prod.fst,
            k ∉ todo.map Prod.fst ∧ ∀ item' ∈ todo, (maker.sees [item.1]).newName item'.1 ≠ k := by
        intro k hk
        rw [List.map_append, List.mem_append] at hk
        rcases hk with hk | hk
        · refine ⟨fun hin ↦ (hdone k hk).1 (List.mem_cons_of_mem _ hin), fun item' h ↦ ?_⟩
          rw [hsame item' h]
          exact (hdone k hk).2 item' (by simp [h])
        · obtain rfl : k = maker.newName item.1 := by simpa using hk
          refine ⟨hnew, fun item' h heq ↦ ?_⟩
          rw [hsame item' h] at heq
          have hmem' := List.mem_map_of_mem (f := Prod.fst) h
          have heq' := UniqueNameMaker.newName_injOn hfresh (List.mem_cons_of_mem _ hmem') (by simp) heq
          exact hnot (heq' ▸ hmem')
      obtain ⟨d', hd', hitems'⟩ := ih (maker.sees [item.1]) hitems₁ hkept hnodup
        (fun item' h ↦ hcounted item' (by simp [h])) hfresh₁ hdone₁
      refine ⟨d', ?_, ?_⟩
      · rw [List.map_cons, ← UniqueNameMaker.sees_sees hnot, List.foldlM_cons, hstep]
        exact hd'
      · rw [hitems', List.append_assoc, List.map_cons, List.singleton_append]
        refine congrArg (fun l ↦ done ++ _ :: l) (List.map_congr_left fun item' h ↦ ?_)
        rw [hsame item' h]

theorem perm_sortedItems (d : Dict Name ν) : (sortedItems d).Perm d.items := List.perm_insertionSort _ _

theorem perm_sortedKeys (d : Dict Name ν) : ((sortedItems d).map Prod.fst).Perm d.keys :=
  (perm_sortedItems d).map Prod.fst

theorem nodup_sortedKeys (d : Dict Name ν) : ((sortedItems d).map Prod.fst).Nodup :=
  (perm_sortedKeys d).nodup_iff.mpr d.nodup

/-- A key that is greater than another one comes after it. -/
theorem mem_post_of_lt {pre post : List (Name × ν)} (hsplit : sortedItems d = pre ++ item :: post)
    {k : Name} (hk : k ∈ d.keys) (hlt : item.1 < k) : k ∈ post.map Prod.fst := by
  have hsorted : (sortedItems d).Pairwise (fun a b ↦ a.1 ≤ b.1) := by
    have : IsTrans (Name × ν) (fun a b ↦ a.1 ≤ b.1) := ⟨fun _ _ _ ↦ le_trans⟩
    have : Std.Total fun a b : Name × ν ↦ a.1 ≤ b.1 := ⟨fun a b ↦ le_total a.1 b.1⟩
    exact List.pairwise_insertionSort _ _
  have hmem := (perm_sortedKeys d).mem_iff.mpr hk
  rw [hsplit, List.map_append, List.map_cons, List.mem_append, List.mem_cons] at hmem
  rw [hsplit, List.pairwise_append] at hsorted
  rcases hmem with hmem | rfl | hmem
  · obtain ⟨item', hitem', rfl⟩ := List.mem_map.mp hmem
    exact absurd hlt (not_lt_of_ge (hsorted.2.2 item' hitem' item (by simp)))
  · exact absurd hlt (lt_irrefl _)
  · exact hmem

/-- What the renaming of a dict does. -/
structure Renames (d d' : Dict Name ν) : Prop where
  length_le : d'.items.length ≤ d.items.length
  length_eq_iff : d'.items.length = d.items.length ↔ maker.FreshIn d.keys
  items : maker.FreshIn d.keys → d'.items.Perm (d.items.map fun item ↦
    (maker.newName item.1, setName (maker.newName item.1) item.2))

theorem renameKeys_spec (hcounted : ∀ k ∈ d.keys, k ∈ maker.allNames) :
    ∃ d', renameKeys setName maker d = some (maker.sees d.keys, d') ∧ Renames setName maker d d' := by
  have hcounted' : ∀ item ∈ sortedItems d, item.1 ∈ maker.allNames := fun item h ↦
    hcounted _ ((perm_sortedKeys d).mem_iff.mp (List.mem_map_of_mem h))
  have hsees : maker.sees ((sortedItems d).map Prod.fst) = maker.sees d.keys :=
    UniqueNameMaker.sees_congr fun _ ↦ (perm_sortedKeys d).mem_iff
  rw [renameKeys, ← hsees]
  by_cases hfresh : maker.FreshIn d.keys
  · have hfresh' : maker.FreshIn ((sortedItems d).map Prod.fst) := fun name hname hrep hin ↦
      hfresh name ((perm_sortedKeys d).mem_iff.mp hname) hrep ((perm_sortedKeys d).mem_iff.mp hin)
    obtain ⟨d', hd', hitems⟩ := foldlM_renameKey_fresh setName maker (List.append_nil d.items).symm
      (perm_sortedItems d).symm (nodup_sortedKeys d) hcounted' hfresh' (by simp)
    have hperm : d'.items.Perm (d.items.map fun item ↦
        (maker.newName item.1, setName (maker.newName item.1) item.2)) := by
      rw [hitems, List.nil_append]
      exact (perm_sortedItems d).map _
    have hlength : d'.items.length = d.items.length := by simpa using hperm.length_eq
    exact ⟨d', hd', hlength.le, iff_of_true hlength hfresh, fun _ ↦ hperm⟩
  · have hnot := hfresh
    simp only [UniqueNameMaker.FreshIn, not_forall, not_not] at hnot
    obtain ⟨name, hname, hrep, hclash⟩ := hnot
    obtain ⟨item, hitem, rfl⟩ := List.mem_map.mp ((perm_sortedKeys d).mem_iff.mpr hname)
    obtain ⟨pre, post, hsplit⟩ := List.append_of_mem hitem
    have hpost : maker.newName item.1 ∈ post.map Prod.fst := by
      refine mem_post_of_lt hsplit hclash ?_
      rw [UniqueNameMaker.newName_of_repeated hrep]
      exact lt_withIndex _ _
    have hkeys : ∀ item' ∈ sortedItems d, item'.1 ∈ d.keys := fun item' h ↦
      (perm_sortedKeys d).mem_iff.mp (List.mem_map_of_mem h)
    have hnodup := nodup_sortedKeys d
    rw [hsplit] at hnodup hcounted' hkeys ⊢
    obtain ⟨d', hd', hlt⟩ := foldlM_renameKey_lt setName maker hnodup hcounted' hkeys hpost
    exact ⟨d', hd', hlt.le, iff_of_false hlt.ne hfresh, fun h ↦ absurd h hfresh⟩

end RenameKeys

/-! ## The keys of all dicts are renamed -/

/-- The dicts of the phases are renamed one after the other. -/
inductive RenamesAll (setName : Name → ν → ν) : UniqueNameMaker → List (Dict Name ν) →
    List (Dict Name ν) → Prop where
  | nil (maker : UniqueNameMaker) : RenamesAll setName maker [] []
  | cons {maker : UniqueNameMaker} {d d' : Dict Name ν} {ds ds' : List (Dict Name ν)}
    (head : Renames setName maker d d') (tail : RenamesAll setName (maker.sees d.keys) ds ds') :
    RenamesAll setName maker (d :: ds) (d' :: ds')

namespace RenamesAll

variable {setName : Name → ν → ν} {maker : UniqueNameMaker} {ds ds' : List (Dict Name ν)}

theorem length_le (h : RenamesAll setName maker ds ds') :
    List.Forall₂ (fun d d' ↦ d'.items.length ≤ d.items.length) ds ds' := by
  induction h with
  | nil => exact .nil
  | cons head tail ih => exact .cons head.length_le ih

theorem length_eq_iff (h : RenamesAll setName maker ds ds') :
    List.Forall₂ (fun d d' ↦ d'.items.length = d.items.length) ds ds' ↔
      maker.EachPhase UniqueNameMaker.FreshIn (ds.map Dict.keys) := by
  induction h with
  | nil => exact iff_of_true .nil trivial
  | cons head tail ih =>
      rw [List.forall₂_cons, head.length_eq_iff, ih]
      rfl

/-- The values under their new names, phase by phase. -/
theorem values (h : RenamesAll setName maker ds ds') {γ : Type} (content : ν → γ)
    (hcontent : ∀ name value, content (setName name value) = content value)
    (hfresh : maker.EachPhase UniqueNameMaker.FreshIn (ds.map Dict.keys)) :
    List.Forall₂ (fun d d' ↦ (d'.items.map fun item ↦ content item.2).Perm
      (d.items.map fun item ↦ content item.2)) ds ds' := by
  induction h with
  | nil => exact .nil
  | cons head tail ih =>
      refine .cons ?_ (ih hfresh.2)
      have hperm := (head.items hfresh.1).map fun item ↦ content item.2
      simpa [hcontent, Function.comp_def] using hperm

theorem keys (h : RenamesAll setName maker ds ds')
    (hfresh : maker.EachPhase UniqueNameMaker.FreshIn (ds.map Dict.keys)) :
    (ds'.flatMap Dict.keys).Perm (maker.newNames (ds.map Dict.keys)).flatten := by
  induction h with
  | nil => exact .nil
  | cons head tail ih =>
      rw [List.flatMap_cons, List.map_cons, UniqueNameMaker.newNames, List.flatten_cons]
      refine List.Perm.append ?_ (ih hfresh.2)
      have hperm := (head.items hfresh.1).map Prod.fst
      simpa [Dict.keys, Function.comp_def] using hperm

/-- The renaming loses nothing, and the new names are distinct, exactly if they are fresh. -/
theorem renamesFresh_iff (h : RenamesAll setName maker ds ds')
    (hcounted : (ds.map Dict.keys).flatten.Subperm maker.allNames) :
    RenamesFresh maker (ds.map Dict.keys) ↔
      List.Forall₂ (fun d d' ↦ d'.items.length = d.items.length) ds ds' ∧ (ds'.flatMap Dict.keys).Nodup := by
  have hnodup : ∀ names ∈ ds.map Dict.keys, names.Nodup := by
    rintro names hnames
    obtain ⟨d, -, rfl⟩ := List.mem_map.mp hnames
    exact d.nodup
  rw [h.length_eq_iff]
  refine and_congr_right fun hfresh ↦ ?_
  rw [(h.keys hfresh).nodup_iff, UniqueNameMaker.nodup_newNames_iff hnodup hcounted hfresh]

end RenamesAll

/-- `phase_uniquizer` ends, and renames both kinds of dicts. -/
theorem uniquizePhases_spec (measurementMaker attachmentMaker : UniqueNameMaker) (phases : List (Phase δ β α))
    (hmeasurements : ∀ p ∈ phases, ∀ k ∈ p.measurements.keys, k ∈ measurementMaker.allNames)
    (hattachments : ∀ p ∈ phases, ∀ k ∈ p.attachments.keys, k ∈ attachmentMaker.allNames) :
    ∃ phases', uniquizePhases measurementMaker attachmentMaker phases = some phases' ∧
      RenamesAll Measurement.setName measurementMaker (phases.map Phase.measurements)
        (phases'.map Phase.measurements) ∧
      RenamesAll (fun _ a ↦ a) attachmentMaker (phases.map Phase.attachments)
        (phases'.map Phase.attachments) := by
  induction phases generalizing measurementMaker attachmentMaker with
  | nil => exact ⟨[], rfl, .nil _, .nil _⟩
  | cons p phases ih =>
      obtain ⟨measurements, hm, hmspec⟩ :=
        renameKeys_spec Measurement.setName measurementMaker (hmeasurements p (by simp))
      obtain ⟨attachments, ha, haspec⟩ :=
        renameKeys_spec (fun _ a ↦ a) attachmentMaker (hattachments p (by simp))
      obtain ⟨phases', hphases', hmall, haall⟩ :=
        ih (measurementMaker.sees p.measurements.keys) (attachmentMaker.sees p.attachments.keys)
          (fun q hq ↦ hmeasurements q (by simp [hq])) (fun q hq ↦ hattachments q (by simp [hq]))
      refine ⟨⟨measurements, attachments⟩ :: phases', ?_, .cons hmspec hmall, .cons haspec haall⟩
      simp [uniquizePhases, hm, ha, hphases']

/-! ## The conversion -/

section Convert

variable (toAttachment : Name → Measurement δ β → α) (maker : UniqueNameMaker) {p : Phase δ β α}

/-- The attachments that are made of measurements. -/
def madeAttachments (items : List (Name × Measurement δ β)) : List (Name × α) :=
  items.map fun item ↦ (maker.newName (multidim item.1), toAttachment (maker.newName (multidim item.1)) item.2)

theorem multidim_inj {a b : Name} : multidim a = multidim b ↔ a = b := List.append_right_inj _

/-- A phase after the loop in `convert_multidim_measurements`. -/
def convertedPhase (items : List (Name × Measurement δ β)) (p : Phase δ β α) : Phase δ β α where
  measurements := items.foldl (fun d item ↦ d.erase item.1) p.measurements
  attachments := p.attachments.update (madeAttachments toAttachment maker items)

theorem foldlM_convertMeasurement {items : List (Name × Measurement δ β)}
    (hnodup : (items.map Prod.fst).Nodup)
    (hcounted : ∀ item ∈ items, item.2.isMultidim → multidim item.1 ∈ maker.allNames) :
    items.foldlM (convertMeasurement toAttachment) (maker, p) =
      some (maker.sees ((items.filter (·.2.isMultidim)).map (multidim ·.1)),
        convertedPhase toAttachment maker (items.filter (·.2.isMultidim)) p) := by
  induction items generalizing maker p with
  | nil => simp [convertedPhase, madeAttachments, Dict.update, dictUpdate]
  | cons item items ih =>
      obtain ⟨hnot, hnodup⟩ := List.nodup_cons.mp hnodup
      have hrest : ∀ item' ∈ items, item'.2.isMultidim → multidim item'.1 ∈ maker.allNames :=
        fun item' h ↦ hcounted item' (by simp [h])
      rw [List.foldlM_cons]
      by_cases hitem : item.2.isMultidim = true
      · have hnew : multidim item.1 ∉ (items.filter (·.2.isMultidim)).map (multidim ·.1) := by
          intro hin
          obtain ⟨item', hitem', heq⟩ := List.mem_map.mp hin
          exact hnot (List.mem_map.mpr ⟨item', List.mem_of_mem_filter hitem', multidim_inj.mp heq⟩)
        have hstep : convertMeasurement toAttachment (maker, p) item =
            some (maker.sees [multidim item.1], convertedPhase toAttachment maker [item] p) := by
          simp only [convertMeasurement, hitem, if_true, UniqueNameMaker.makeUnique_eq (hcounted item (by simp) hitem)]
          rfl
        have hmade : madeAttachments toAttachment (maker.sees [multidim item.1]) (items.filter (·.2.isMultidim)) =
            madeAttachments toAttachment maker (items.filter (·.2.isMultidim)) := by
          refine List.map_congr_left fun item' h ↦ ?_
          rw [UniqueNameMaker.newName_sees_of_not_mem]
          exact fun hin ↦ hnew (List.mem_map.mpr ⟨item', h, List.mem_singleton.mp hin⟩)
        have hfilter : (item :: items).filter (·.2.isMultidim) = item :: items.filter (·.2.isMultidim) :=
          List.filter_cons_of_pos hitem
        rw [hstep, Option.bind_eq_bind, Option.bind_some, ih (maker.sees [multidim item.1]) hnodup hrest,
          hfilter, List.map_cons, UniqueNameMaker.sees_sees hnew, convertedPhase, hmade]
        rfl
      · have hstep : convertMeasurement toAttachment (maker, p) item = some (maker, p) := by
          simp [convertMeasurement, hitem]
        have hfilter : (item :: items).filter (·.2.isMultidim) = items.filter (·.2.isMultidim) :=
          List.filter_cons_of_neg hitem
        rw [hstep, Option.bind_eq_bind, Option.bind_some, ih maker hnodup hrest, hfilter]

/-- The measurements that stay. -/
theorem items_foldl_erase (d : Dict Name ν) (items : List (Name × ν)) :
    (items.foldl (fun d item ↦ d.erase item.1) d).items =
      d.items.filter fun item ↦ item.1 ∉ items.map Prod.fst := by
  induction items generalizing d with
  | nil => simp
  | cons item items ih =>
      rw [List.foldl_cons, ih]
      change (dictErase item.1 d.items).filter _ = _
      rw [dictErase, List.filter_filter]
      refine List.filter_congr fun item' _ ↦ ?_
      rw [Bool.eq_iff_iff]
      simp only [List.map_cons, List.mem_cons, not_or, decide_not, Bool.and_eq_true, Bool.not_eq_true',
        decide_eq_false_iff_not, decide_eq_true_eq]
      exact and_comm

theorem mem_multidims {item : Name × Measurement δ β} :
    item ∈ p.multidims ↔ item ∈ p.measurements.items ∧ item.2.isMultidim = true := by
  rw [Phase.multidims, List.mem_filter, (perm_sortedItems _).mem_iff]

theorem items_convertedPhase : (convertedPhase toAttachment maker p.multidims p).measurements.items = p.singles := by
  refine (items_foldl_erase p.measurements p.multidims).trans (List.filter_congr fun item hitem ↦ ?_)
  have hiff : item.1 ∈ p.multidims.map Prod.fst ↔ item.2.isMultidim = true := by
    constructor
    · intro hin
      obtain ⟨item', hitem', heq⟩ := List.mem_map.mp hin
      obtain ⟨hmem, hmulti⟩ := mem_multidims.mp hitem'
      obtain rfl := List.inj_on_of_nodup_map p.measurements.nodup hmem hitem heq
      exact hmulti
    · exact fun hmulti ↦ List.mem_map_of_mem (mem_multidims.mpr ⟨hitem, hmulti⟩)
  simp [hiff]

theorem nodup_multidimNames : p.multidimNames.Nodup := by
  have hkeys : (p.multidims.map Prod.fst).Nodup :=
    (nodup_sortedKeys p.measurements).sublist (List.filter_sublist.map Prod.fst)
  rw [Phase.multidimNames, ← Function.comp_def multidim, ← List.map_map]
  exact hkeys.map fun _ _ ↦ multidim_inj.mp

theorem keys_madeAttachments : (madeAttachments toAttachment maker p.multidims).map Prod.fst =
    p.multidimNames.map maker.newName := by
  simp [madeAttachments, Phase.multidimNames, Function.comp_def]

/-- The attachments that are made are new, exactly if their names are fresh. -/
theorem adds_madeAttachments_iff
    (hcount : ∀ name ∈ p.multidimNames, name ∈ p.attachments.keys → maker.Repeated name) :
    Adds (madeAttachments toAttachment maker p.multidims) p.attachments.items ↔ ConvertsFreshIn maker p := by
  rw [Adds, keys_madeAttachments]
  constructor
  · rintro ⟨hnodup, hnew⟩ name hname hrep
    refine ⟨hnew _ (List.mem_map_of_mem hname), fun hin ↦ ?_⟩
    by_contra hsingle
    have hself := UniqueNameMaker.newName_of_not_repeated hsingle
    have hsame : maker.newName name = name := List.inj_on_of_nodup_map hnodup hin hname hself
    exact hsingle (by rwa [hsame])
  · intro hfresh
    refine ⟨List.Nodup.map_on (fun a ha b hb heq ↦ ?_) nodup_multidimNames, fun k hk ↦ ?_⟩
    · by_cases hrepa : maker.Repeated a
      · by_cases hrepb : maker.Repeated b
        · rw [UniqueNameMaker.newName_of_repeated hrepa, UniqueNameMaker.newName_of_repeated hrepb] at heq
          exact (withIndex_inj.mp heq).1
        · rw [UniqueNameMaker.newName_of_not_repeated hrepb] at heq
          exact absurd (heq ▸ (hfresh a ha hrepa).2 (heq ▸ hb)) hrepb
      · by_cases hrepb : maker.Repeated b
        · rw [UniqueNameMaker.newName_of_not_repeated hrepa] at heq
          exact absurd (heq ▸ (hfresh b hb hrepb).2 (heq ▸ ha)) hrepa
        · rwa [UniqueNameMaker.newName_of_not_repeated hrepa, UniqueNameMaker.newName_of_not_repeated hrepb] at heq
    · obtain ⟨name, hname, rfl⟩ := List.mem_map.mp hk
      by_cases hrep : maker.Repeated name
      · exact (hfresh name hname hrep).1
      · rw [UniqueNameMaker.newName_of_not_repeated hrep]
        exact fun hin ↦ hrep (hcount name hname hin)

/-- The phases after `convert_multidim_measurements`. -/
def convertedPhases : UniqueNameMaker → List (Phase δ β α) → List (Phase δ β α)
  | _, [] => []
  | maker, p :: phases =>
    convertedPhase toAttachment maker p.multidims p :: convertedPhases (maker.sees p.multidimNames) phases

variable {phases : List (Phase δ β α)}

theorem convertPhases_eq (hcounted : ∀ p ∈ phases, ∀ name ∈ p.multidimNames, name ∈ maker.allNames) :
    convertPhases toAttachment maker phases = some (convertedPhases toAttachment maker phases) := by
  induction phases generalizing maker with
  | nil => rfl
  | cons p phases ih =>
      have hp : ∀ item ∈ sortedItems p.measurements, item.2.isMultidim → multidim item.1 ∈ maker.allNames :=
        fun item hitem hmulti ↦ hcounted p (by simp) _
          (List.mem_map.mpr ⟨item, List.mem_filter.mpr ⟨hitem, hmulti⟩, rfl⟩)
      have hfold := foldlM_convertMeasurement toAttachment maker (p := p) (nodup_sortedKeys p.measurements) hp
      have hrest := ih (maker.sees p.multidimNames) fun q hq ↦ hcounted q (by simp [hq])
      rw [convertPhases, hfold]
      simp only [Option.bind_eq_bind, Option.bind_some]
      exact congrArg (Option.bind · _) hrest

theorem measurements_convertedPhases (phases : List (Phase δ β α)) :
    (convertedPhases toAttachment maker phases).map (·.measurements.items) = phases.map Phase.singles := by
  induction phases generalizing maker with
  | nil => rfl
  | cons p phases ih =>
      rw [convertedPhases, List.map_cons, List.map_cons, ih, items_convertedPhase]

theorem length_convertedPhases_le : List.Forall₂ (fun p p₁ ↦ p₁.attachments.items.length ≤
    p.attachments.items.length + p.multidims.length) phases (convertedPhases toAttachment maker phases) := by
  induction phases generalizing maker with
  | nil => exact .nil
  | cons p phases ih =>
      refine .cons ?_ (ih _)
      have hle := length_dictUpdate_le (madeAttachments toAttachment maker p.multidims) p.attachments.items
      rwa [madeAttachments, List.length_map] at hle

/-- The conversion loses no attachment, exactly if the names that it makes are fresh. -/
theorem convertsFresh_iff (hcount : ∀ p ∈ phases, ∀ name ∈ p.multidimNames, name ∈ p.attachments.keys →
      maker.Repeated name) :
    ConvertsFresh maker phases ↔ List.Forall₂ (fun p p₁ ↦ p₁.attachments.items.length =
      p.attachments.items.length + p.multidims.length) phases (convertedPhases toAttachment maker phases) := by
  induction phases generalizing maker with
  | nil => exact iff_of_true trivial .nil
  | cons p phases ih =>
      have hp := adds_madeAttachments_iff toAttachment maker (hcount p (by simp))
      have hmade : (madeAttachments toAttachment maker p.multidims).length = p.multidims.length :=
        List.length_map _
      have hlength : (convertedPhase toAttachment maker p.multidims p).attachments.items.length =
          p.attachments.items.length + p.multidims.length ↔ ConvertsFreshIn maker p := by
        rw [← hp, ← hmade]
        constructor
        · intro heq
          by_contra hnot
          exact (length_dictUpdate_lt hnot).ne heq
        · intro hadds
          exact (congrArg List.length hadds.dictUpdate_eq).trans (List.length_append ..)
      rw [convertedPhases, List.forall₂_cons, hlength,
        ← ih (maker.sees p.multidimNames) fun q hq ↦ hcount q (by simp [hq])]
      rfl

/-- What the conversion makes of the attachments if the names are fresh. -/
theorem attachments_convertedPhases (hcount : ∀ p ∈ phases, ∀ name ∈ p.multidimNames,
      name ∈ p.attachments.keys → maker.Repeated name) (hfresh : ConvertsFresh maker phases) :
    (convertedPhases toAttachment maker phases).map (·.attachments.keys) = convertedNames maker phases ∧
      List.Forall₂ (fun p p₁ ↦ ∃ names : List Name, names.length = p.multidims.length ∧
        p₁.attachments.items.map Prod.snd = p.attachments.items.map Prod.snd ++
          List.zipWith (fun name item ↦ toAttachment name item.2) names p.multidims)
        phases (convertedPhases toAttachment maker phases) := by
  induction phases generalizing maker with
  | nil => exact ⟨rfl, .nil⟩
  | cons p phases ih =>
      have hadds := (adds_madeAttachments_iff toAttachment maker (hcount p (by simp))).mpr hfresh.1
      have hitems : (convertedPhase toAttachment maker p.multidims p).attachments.items =
          p.attachments.items ++ madeAttachments toAttachment maker p.multidims := hadds.dictUpdate_eq
      obtain ⟨hkeys, hvalues⟩ := ih (maker.sees p.multidimNames) (fun q hq ↦ hcount q (by simp [hq])) hfresh.2
      rw [convertedPhases]
      refine ⟨?_, .cons ⟨p.multidimNames.map maker.newName, by simp [Phase.multidimNames], ?_⟩ hvalues⟩
      · rw [List.map_cons, hkeys, convertedNames, Dict.keys, hitems, List.map_append, keys_madeAttachments]
        rfl
      · rw [hitems, List.map_append, Phase.multidimNames, List.map_map, List.zipWith_map_left]
        simp [madeAttachments, List.zipWith_self]

end Convert

/-! ## The result -/

section Forall₂

variable {A B C : Type} {R : A → B → Prop} {S : B → C → Prop} {T : A → C → Prop}

theorem forall₂_comp (h : ∀ a b c, R a b → S b c → T a c) {as : List A} {bs : List B} {cs : List C}
    (hR : List.Forall₂ R as bs) (hS : List.Forall₂ S bs cs) : List.Forall₂ T as cs := by
  induction hR generalizing cs with
  | nil =>
      cases hS
      exact .nil
  | cons hab _ ih =>
      cases hS with
      | cons hbc hS => exact .cons (h _ _ _ hab hbc) (ih hS)

end Forall₂

section Result

variable (toAttachment : Name → Measurement δ β → α) (phases : List (Phase δ β α))

/-- `convert_multidim_measurements` and then `phase_uniquizer`. -/
def makeUniquePhases : Option (List (Phase δ β α)) :=
  (convertMultidimMeasurements toAttachment phases).bind phaseUniquizer

variable {phases} {p : Phase δ β α}

theorem Measurement.hasDimensions_of_isMultidim {m : Measurement δ β} (h : m.isMultidim = true) :
    m.hasDimensions = true := by
  unfold isMultidim at h
  split at h
  · rename_i hdims
    simp [hasDimensions, hdims]
  · cases h

theorem mem_announced (hp : p ∈ phases) {name : Name} (hname : name ∈ p.multidimNames) :
    name ∈ phases.flatMap fun p ↦ (p.measurements.items.filter (·.2.hasDimensions)).map (multidim ·.1) := by
  obtain ⟨item, hitem, rfl⟩ := List.mem_map.mp hname
  obtain ⟨hmem, hmulti⟩ := mem_multidims.mp hitem
  refine List.mem_flatMap.mpr ⟨p, hp, List.mem_map.mpr ⟨item, List.mem_filter.mpr ⟨hmem, ?_⟩, rfl⟩⟩
  exact Measurement.hasDimensions_of_isMultidim hmulti

theorem repeated_of_attached (hp : p ∈ phases) {name : Name} (hname : name ∈ p.multidimNames)
    (hkey : name ∈ p.attachments.keys) :
    UniqueNameMaker.Repeated { allNames := attachmentNames phases } name := by
  have hhere := List.count_pos_iff.mpr (mem_announced hp hname)
  have hthere : 0 < (phases.flatMap (·.attachments.keys)).count name :=
    List.count_pos_iff.mpr (List.mem_flatMap.mpr ⟨p, hp, hkey⟩)
  rw [UniqueNameMaker.Repeated, attachmentNames, List.count_append]
  omega

theorem singleNames_eq (maker : UniqueNameMaker) :
    ((convertedPhases toAttachment maker phases).map Phase.measurements).map Dict.keys = singleNames phases := by
  have hitems := congrArg (List.map (List.map Prod.fst)) (measurements_convertedPhases toAttachment maker
    phases)
  simpa [singleNames, Dict.keys, Function.comp_def] using hitems

theorem announcedNames_eq (hfresh : ConvertsFresh { allNames := attachmentNames phases } phases) :
    attachmentNames (convertedPhases toAttachment { allNames := attachmentNames phases } phases) =
      announcedNames phases := by
  have hkeys := (attachments_convertedPhases toAttachment _
    (fun p hp name hname hkey ↦ repeated_of_attached hp hname hkey) hfresh).1
  have hitems := measurements_convertedPhases toAttachment { allNames := attachmentNames phases }
    phases
  rw [attachmentNames, announcedNames, ← hkeys, List.flatMap_def]
  refine congrArg _ ?_
  have hflat := congrArg (List.flatMap fun items : List (Name × Measurement δ β) ↦
    (items.filter (·.2.hasDimensions)).map (multidim ·.1)) hitems
  simpa [List.flatMap_map] using hflat

/-- How many attachments there are before, between and after the two passes. -/
theorem attachments_length_iff {phases₁ phases' : List (Phase δ β α)}
    (hconvert : List.Forall₂ (fun p p₁ ↦ p₁.attachments.items.length ≤
      p.attachments.items.length + p.multidims.length) phases phases₁)
    (hrename : List.Forall₂ (fun p₁ p' ↦ p'.attachments.items.length ≤ p₁.attachments.items.length)
      phases₁ phases') (hall : List.Forall₂ (fun p p' ↦ p'.attachments.items.length =
      p.attachments.items.length + p.multidims.length) phases phases') :
    List.Forall₂ (fun p p₁ ↦ p₁.attachments.items.length =
      p.attachments.items.length + p.multidims.length) phases phases₁ ∧
    List.Forall₂ (fun p₁ p' ↦ p'.attachments.items.length = p₁.attachments.items.length) phases₁ phases' := by
  have hconverted : List.Forall₂ (fun p p₁ ↦ p₁.attachments.items.length =
      p.attachments.items.length + p.multidims.length) phases phases₁ := by
    have hge : List.Forall₂ (fun p p₁ ↦ p.attachments.items.length + p.multidims.length ≤
        p₁.attachments.items.length) phases phases₁ :=
      forall₂_comp (fun _ _ _ heq hle ↦ heq ▸ hle) hall hrename.flip
    exact hge.mp (fun _ _ hle hge ↦ le_antisymm hge hle) hconvert
  refine ⟨hconverted, ?_⟩
  exact forall₂_comp (fun _ _ _ hmid heq ↦ heq.trans hmid.symm) hconverted.flip hall

section Passes

variable {phases' : List (Phase δ β α)} (maker : UniqueNameMaker)

theorem measurements_iff (hrenames : RenamesAll Measurement.setName
      { allNames := (convertedPhases toAttachment maker phases).flatMap (·.measurements.keys) }
      ((convertedPhases toAttachment maker phases).map Phase.measurements)
      (phases'.map Phase.measurements)) :
    (phases'.flatMap (·.measurements.keys)).Nodup ∧ List.Forall₂ KeepsMeasurements phases phases' ↔
      RenamesFresh { allNames := (singleNames phases).flatten } (singleNames phases) := by
  have hnames : ((convertedPhases toAttachment maker phases).map Phase.measurements).map Dict.keys =
      singleNames phases := singleNames_eq toAttachment maker
  have hall : (convertedPhases toAttachment maker phases).flatMap (·.measurements.keys) =
      (singleNames phases).flatten := by
    rw [← hnames, List.map_map, ← List.flatMap_def]
    rfl
  rw [hall] at hrenames
  have hiff := hrenames.renamesFresh_iff (by rw [hnames])
  rw [hnames] at hiff
  rw [hiff, and_comm]
  have hsingles : List.Forall₂ (fun p p₁ ↦ p₁.measurements.items = p.singles) phases
      (convertedPhases toAttachment maker phases) := by
    have hitems := measurements_convertedPhases toAttachment maker phases
    rw [← List.forall₂_eq_eq_eq, List.forall₂_map_left_iff, List.forall₂_map_right_iff] at hitems
    exact hitems.flip
  rw [List.flatMap_map]
  refine and_congr_left fun _ ↦ ⟨fun hkeeps ↦ ?_, fun hlength ↦ ?_⟩
  · rw [List.forall₂_map_left_iff, List.forall₂_map_right_iff]
    refine forall₂_comp (fun _ _ _ hmid hkept ↦ ?_) hsingles.flip hkeeps
    rw [hmid]
    simpa using hkept.length_eq
  · have hvalues := hrenames.values (fun m ↦ (m.dimensions, m.content)) (fun _ _ ↦ rfl)
      (hrenames.length_eq_iff.mp hlength)
    rw [List.forall₂_map_left_iff, List.forall₂_map_right_iff] at hvalues
    refine forall₂_comp (fun _ _ _ hmid hvalue ↦ ?_) hsingles hvalues
    rw [KeepsMeasurements, ← hmid]
    exact hvalue

theorem attachments_iff (hrenames : RenamesAll (fun _ a ↦ a)
      { allNames := attachmentNames (convertedPhases toAttachment { allNames := attachmentNames phases } phases) }
      ((convertedPhases toAttachment { allNames := attachmentNames phases } phases).map Phase.attachments)
      (phases'.map Phase.attachments)) :
    (phases'.flatMap (·.attachments.keys)).Nodup ∧ List.Forall₂ (KeepsAttachments toAttachment) phases phases' ↔
      ConvertsFresh { allNames := attachmentNames phases } phases ∧
        RenamesFresh { allNames := announcedNames phases }
          (convertedNames { allNames := attachmentNames phases } phases) := by
  have hattached : ∀ p ∈ phases, ∀ name ∈ p.multidimNames, name ∈ p.attachments.keys →
      UniqueNameMaker.Repeated { allNames := attachmentNames phases } name :=
    fun p hp name hname hkey ↦ repeated_of_attached hp hname hkey
  have hconverts := convertsFresh_iff toAttachment { allNames := attachmentNames phases } hattached
  -- When the conversion is fresh, the second pass sees the names of the condition.
  have hrenamesFresh : ConvertsFresh { allNames := attachmentNames phases } phases →
      (RenamesFresh { allNames := announcedNames phases }
        (convertedNames { allNames := attachmentNames phases } phases) ↔
      List.Forall₂ (fun p₁ p' ↦ p'.attachments.items.length = p₁.attachments.items.length)
        (convertedPhases toAttachment { allNames := attachmentNames phases } phases) phases' ∧
          (phases'.flatMap (·.attachments.keys)).Nodup) := by
    intro hfresh
    have hnames := (attachments_convertedPhases toAttachment _ hattached hfresh).1
    rw [announcedNames_eq toAttachment hfresh] at hrenames
    have hiff := hrenames.renamesFresh_iff (by
      rw [List.map_map, announcedNames, ← hnames]
      exact (List.sublist_append_left _ _).subperm)
    rw [List.map_map, List.forall₂_map_left_iff, List.forall₂_map_right_iff, List.flatMap_map] at hiff
    rw [← hnames]
    exact hiff
  constructor
  · rintro ⟨hnodup, hkeeps⟩
    have hall : List.Forall₂ (fun p p' ↦ p'.attachments.items.length =
        p.attachments.items.length + p.multidims.length) phases phases' := by
      refine hkeeps.imp fun p p' ⟨names, hlength, hperm⟩ ↦ ?_
      simpa [hlength] using hperm.length_eq
    have hle := hrenames.length_le
    rw [List.forall₂_map_left_iff, List.forall₂_map_right_iff] at hle
    obtain ⟨hconverted, hrenamed⟩ := attachments_length_iff
      (length_convertedPhases_le toAttachment _) hle hall
    have hfresh := hconverts.mpr hconverted
    exact ⟨hfresh, (hrenamesFresh hfresh).mpr ⟨hrenamed, hnodup⟩⟩
  · rintro ⟨hfresh, hrename⟩
    obtain ⟨hlength, hnodup⟩ := (hrenamesFresh hfresh).mp hrename
    refine ⟨hnodup, ?_⟩
    have hlength' : List.Forall₂ (fun d d' : Dict Name α ↦ d'.items.length = d.items.length)
        ((convertedPhases toAttachment { allNames := attachmentNames phases } phases).map Phase.attachments)
        (phases'.map Phase.attachments) := by
      rwa [List.forall₂_map_left_iff, List.forall₂_map_right_iff]
    have hvalues := hrenames.values (fun a ↦ a) (fun _ _ ↦ rfl) (hrenames.length_eq_iff.mp hlength')
    rw [List.forall₂_map_left_iff, List.forall₂_map_right_iff] at hvalues
    have hmade := (attachments_convertedPhases toAttachment _ hattached hfresh).2
    refine forall₂_comp (fun p p₁ p' ⟨names, hcount, hitems⟩ hvalue ↦ ⟨names, hcount, ?_⟩) hmade hvalues
    rw [← hitems]
    exact hvalue

end Passes

/-- After the conversion and the renaming nothing is lost and all names are
distinct exactly if no name with an index clashes. -/
theorem nothing_lost_iff (toAttachment : Name → Measurement δ β → α) (phases : List (Phase δ β α)) :
    ∃ phases', makeUniquePhases toAttachment phases = some phases' ∧
      (NothingLost toAttachment phases phases' ↔ NoClash phases) := by
  let maker : UniqueNameMaker := { allNames := attachmentNames phases }
  let phases₁ := convertedPhases toAttachment maker phases
  have hconvert : convertMultidimMeasurements toAttachment phases = some phases₁ :=
    convertPhases_eq toAttachment maker fun p hp name hname ↦
      List.mem_append.mpr (.inr (mem_announced hp hname))
  have hkeys : ∀ p ∈ phases₁, ∀ k ∈ p.attachments.keys, k ∈ attachmentNames phases₁ :=
    fun p hp k hk ↦ List.mem_append.mpr (.inl (List.mem_flatMap.mpr ⟨p, hp, hk⟩))
  obtain ⟨phases', huniquize, hmeasurements, hattachments⟩ := uniquizePhases_spec
    { allNames := phases₁.flatMap (·.measurements.keys) } { allNames := attachmentNames phases₁ } phases₁
    (fun p hp k hk ↦ List.mem_flatMap.mpr ⟨p, hp, hk⟩) hkeys
  refine ⟨phases', by rw [makeUniquePhases, hconvert]; exact huniquize, ?_⟩
  have hM := measurements_iff toAttachment maker hmeasurements
  have hA := attachments_iff toAttachment hattachments
  constructor
  · rintro ⟨hnames, hattached, hkept, hkept'⟩
    obtain ⟨hconverted, hrenamed⟩ := hA.mp ⟨hattached, hkept'⟩
    exact ⟨hM.mp ⟨hnames, hkept⟩, hconverted, hrenamed⟩
  · rintro ⟨hsingles, hconverted, hrenamed⟩
    obtain ⟨hnames, hkept⟩ := hM.mpr hsingles
    obtain ⟨hattached, hkept'⟩ := hA.mpr ⟨hconverted, hrenamed⟩
    exact ⟨hnames, hattached, hkept, hkept'⟩

end Result

/-- The first phase has measurements `a` and `a_0`, the second one `a`. -/
def clashing : List (Phase Unit ℕ Unit) :=
  [⟨⟨[(['a'], ⟨['a'], none, 1⟩), (['a', '_', '0'], ⟨['a', '_', '0'], none, 2⟩)], by decide⟩,
      ⟨[], List.nodup_nil⟩⟩,
    ⟨⟨[(['a'], ⟨['a'], none, 3⟩)], by decide⟩, ⟨[], List.nodup_nil⟩⟩]

theorem not_nothing_lost_clashing : ∃ phases', makeUniquePhases (fun _ _ ↦ ()) clashing = some phases' ∧
    ¬NothingLost (fun _ _ ↦ ()) clashing phases' := by
  refine ⟨_, rfl, fun h ↦ ?_⟩
  have hlength := (List.forall₂_cons.mp h.measurements).1.length_eq
  revert hlength
  decide

end OpenHtf.UniqueNames
