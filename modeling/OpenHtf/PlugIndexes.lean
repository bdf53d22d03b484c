import OpenHtf.Lib.Interleaving
import OpenHtf.PlugProvision

/-!
# The two indexes of the plugs

`PlugManager` keeps its plugs by class and by `get_plug_name`, which is made of
the module and the class name.  `configuration.bind_init_args` makes classes at
run time and names each of them after the class it is derived from, so that two
classes that are bound from one have one name, and the second plug replaces the
first in `_plugs_by_name` alone.
-/

set_option autoImplicit false

namespace OpenHtf

open Act

/-! ## Classes -/

/-- The classes of a program by their identity. -/
structure PlugClasses where
  type : ℕ → PlugType
  id_type : ∀ k, (type k).id = k

namespace PlugClasses

/-- `PlugManager.get_plug_name`. -/
def getPlugName (classes : PlugClasses) (k : ℕ) : String := (classes.type k).name

def cls (classes : PlugClasses) (k : ℕ) : PlugCls := .plug (classes.type k)

end PlugClasses

/-- `configuration.bind_init_args`.  `init` is what the constructor of
`class_def` does with the values of the arguments. -/
def bindInitArgs (classDef : PlugType) (id : ℕ) (init : ℕ → PlugInit) : PlugType :=
  { classDef with id := id, name := classDef.name ++ "BoundInit", init := init }

/-! ## Calls -/

namespace PlugManager

/-- `self._plug_types.add(plug_type)`. -/
def addType (t : PlugType) (m : PlugManager) : PlugManager :=
  { m with
    plugTypes :=
      if m.plugTypes.any (fun c ↦ match c with | .plug t' => t'.id == t.id | .placeholder _ => false)
      then m.plugTypes else m.plugTypes ++ [.plug t] }

def getPlugByClassPath (name : String) (m : PlugManager) : Option PlugInstance :=
  m.plugsByName.lookup name

/-- The `plug_states` of `as_base_types`. -/
def plugStates {β : Type} (convert : PlugInstance → β) (m : PlugManager) : List (String × β) :=
  m.plugsByName.map fun item ↦ (item.1, convert item.2)

end PlugManager

/-- `PlugManager.update_plug`.  The `tearDown` of the plug that is replaced is
called here, not in a thread of its own. -/
def updatePlug (t : PlugType) (plug : PlugInstance)
    (tearDown : PlugInstance → ℕ → Except PyExc Unit) : Exec Unit := do
  mapPlugManager (.addType t)
  match ← Act.gets (·.testState.plugManager.plugsByType.lookup t.id) with
  | some replaced =>
    noteStep (.plugTornDown replaced)
    callRaising (tearDown replaced)
  | none => pure ()
  mapPlugManager (.updatePlug t plug)

inductive PlugCall where
  | initializePlugs (plugTypes : Option (List ℕ))
  | updatePlug (plugType : ℕ) (plug : PlugInstance) (tearDown : PlugInstance → ℕ → Except PyExc Unit)

namespace PlugCall

def exec (classes : PlugClasses) : PlugCall → Exec Unit
  | initializePlugs plugTypes => initializePlugTypes (plugTypes.map (List.map classes.cls))
  | updatePlug plugType plug tearDown => OpenHtf.updatePlug (classes.type plugType) plug tearDown

/-- A call that returns or raises; the caller goes on after either. -/
def step (classes : PlugClasses) (s : RunState) (c : PlugCall) : Option RunState :=
  some (c.exec classes s).2

end PlugCall

/-- `PlugManager(plug_types)`, before any call. -/
def PlugClasses.initial (classes : PlugClasses) (plugTypes : List ℕ) : RunState :=
  { testState := { plugManager := { plugTypes := plugTypes.map classes.cls } } }

/-! ## Agreement of the indexes -/

/-- Each class has a name of its own among the registered ones, and the plugs by
name, and so the published states, are the plugs by class. -/
structure PlugManager.IndexesAgree (classes : PlugClasses) (m : PlugManager) : Prop where
  oneName : ∀ k k', (m.plugsByType.lookup k).isSome → (m.plugsByType.lookup k').isSome →
    classes.getPlugName k = classes.getPlugName k' → k = k'
  byName : ∀ name plug, m.plugsByName.lookup name = some plug ↔
    ∃ k, classes.getPlugName k = name ∧ m.plugsByType.lookup k = some plug

/-- The indexes agree, so that every plug is reachable by name and published. -/
structure PlugManager.PlugsPublished (classes : PlugClasses) (m : PlugManager) : Prop
    extends m.IndexesAgree classes where
  reachable : ∀ k plug, m.plugsByType.lookup k = some plug →
    m.getPlugByClassPath (classes.getPlugName k) = some plug
  published : ∀ (β : Type) (convert : PlugInstance → β) k plug, m.plugsByType.lookup k = some plug →
    (classes.getPlugName k, convert plug) ∈ m.plugStates convert

/-- No other class of that name is registered. -/
def PlugManager.NameFree (classes : PlugClasses) (m : PlugManager) (t : PlugType) : Prop :=
  ∀ k, (m.plugsByType.lookup k).isSome → classes.getPlugName k = t.name → k = t.id

/-- A round of the loop of `initialize_plugs` that does not raise. -/
def initializeStep (s : RunState) (c : PlugCls) : Option RunState :=
  match initializePlug c s with
  | (.ok (), s') => some s'
  | (.error _, _) => none

/-- No class is registered by the call while another of its name is. -/
def DistinctNames (classes : PlugClasses) (s : RunState) : PlugCall → Prop
  | .initializePlugs plugTypes =>
    RunMeets initializeStep
      (fun s₁ c ↦ ∀ t, c = .plug t → (initializeStep s₁ c).isSome →
        s₁.testState.plugManager.NameFree classes t)
      ((plugTypes.map (List.map classes.cls)).getD s.testState.plugManager.plugTypes) s
  | .updatePlug plugType _ _ =>
    s.testState.plugManager.NameFree classes (classes.type plugType)

theorem PlugManager.nameFree_of_forall {classes : PlugClasses} {m : PlugManager} {t : PlugType}
    (h : ∀ item ∈ m.plugsByType, classes.getPlugName item.1 = t.name → item.1 = t.id) :
    m.NameFree classes t := by
  intro k hk hname
  obtain ⟨plug, hplug⟩ := Option.isSome_iff_exists.mp hk
  exact h (k, plug) (mem_of_lookup hplug) hname

/-! ## One registration -/

namespace PlugManager.IndexesAgree

variable {classes : PlugClasses} {m : PlugManager}

theorem empty (classes : PlugClasses) (plugTypes : List PlugCls) :
    ({ plugTypes := plugTypes } : PlugManager).IndexesAgree classes where
  oneName k k' hk := by simp at hk
  byName name plug := by simp

theorem clear (classes : PlugClasses) (m : PlugManager) : m.clear.IndexesAgree classes :=
  ⟨(empty classes []).oneName, (empty classes []).byName⟩

theorem addType (h : m.IndexesAgree classes) (t : PlugType) : (m.addType t).IndexesAgree classes :=
  ⟨h.oneName, h.byName⟩

theorem updatePlug (h : m.IndexesAgree classes) {k : ℕ}
    (hfree : m.NameFree classes (classes.type k)) (plug : PlugInstance) :
    (m.updatePlug (classes.type k) plug).IndexesAgree classes := by
  have hother : ∀ k', (m.plugsByType.lookup k').isSome → classes.getPlugName k' = classes.getPlugName k →
      k' = k := by
    intro k' hk' hname
    exact (hfree k' hk' hname).trans (classes.id_type k)
  constructor
  · intro k₁ k₂ h₁ h₂ hname
    simp only [PlugManager.updatePlug, lookup_dictSet, classes.id_type] at h₁ h₂
    split_ifs at h₁ h₂ with hk₁ hk₂ hk₂
    · rw [hk₁, hk₂]
    · rw [hk₁] at hname
      rw [hk₁, hother k₂ h₂ hname.symm]
    · rw [hk₂] at hname
      rw [hk₂, hother k₁ h₁ hname]
    · exact h.oneName k₁ k₂ h₁ h₂ hname
  · intro name plug'
    simp only [PlugManager.updatePlug, lookup_dictSet, classes.id_type]
    constructor
    · intro hplug
      split_ifs at hplug with hname
      · exact ⟨k, hname.symm, by rw [if_pos rfl, hplug]⟩
      · obtain ⟨k', hk', hplug'⟩ := (h.byName name plug').mp hplug
        have hne : k' ≠ k := by
          rintro rfl
          exact hname hk'.symm
        exact ⟨k', hk', by rw [if_neg hne, hplug']⟩
    · rintro ⟨k', hname, hplug⟩
      split_ifs at hplug with hk
      · rw [if_pos (by rw [← hname, hk]; rfl), hplug]
      · have hne : name ≠ (classes.type k).name := by
          intro heq
          exact hk (hother k' (by rw [hplug]; rfl) (hname.trans heq))
        rw [if_neg hne]
        exact (h.byName name plug').mpr ⟨k', hname, hplug⟩

theorem plugsPublished (h : m.IndexesAgree classes) : m.PlugsPublished classes where
  toIndexesAgree := h
  reachable k plug hplug := (h.byName _ plug).mpr ⟨k, rfl, hplug⟩
  published β convert k plug hplug := by
    have hname : m.plugsByName.lookup (classes.getPlugName k) = some plug :=
      (h.byName _ plug).mpr ⟨k, rfl, hplug⟩
    exact List.mem_map_of_mem (mem_of_lookup hname)

end PlugManager.IndexesAgree

/-! ## One call -/

/-- The manager knows its classes, and its indexes agree. -/
structure IndexInv (classes : PlugClasses) (m : PlugManager) : Prop where
  known : ∀ c ∈ m.plugTypes, ∃ k, c = classes.cls k
  agree : m.IndexesAgree classes

section Calls

variable {classes : PlugClasses} {s : RunState}

theorem constructPlug_manager (t : PlugType) : Within SamePlugs (constructPlug t) := by
  refine .ite (fun _ ↦ .raise) fun _ ↦ .ite (fun _ ↦ .raise) fun _ ↦ .bind .gets fun object ↦ ?_
  refine .bind (fun s ↦ rfl) fun made ↦ ?_
  cases made with
  | raised e => exact .bind (.modify fun s ↦ rfl) fun _ ↦ .raise
  | made setsLogger =>
      exact .bind (.modify fun s ↦ rfl) fun _ ↦ .ite (fun _ ↦ .raise) fun _ ↦ .pure

theorem tearDownPlugList_manager (items : List (ℕ × PlugInstance)) (s : RunState) :
    wp (tearDownPlugList items) (fun _ ↦ SamePlugs s) (fun _ _ ↦ False) s := by
  induction items generalizing s with
  | nil => rfl
  | cons item items ih =>
      simp only [tearDownPlugList, noteStep, wp_bind, wp_modify]
      exact ih (s.addStep (.plugTornDown item.2))

/-- What a round of `initialize_plugs` can do. -/
theorem initializePlug_cases (t : PlugType) (s : RunState) :
    wp (initializePlug (.plug t))
      (fun _ s' ↦ SamePlugs s s' ∨
        ∃ plug, s'.testState.plugManager = s.testState.plugManager.updatePlug t plug)
      (fun _ s' ↦ SamePlugs s s' ∨ s'.testState.plugManager = s.testState.plugManager.clear) s := by
  simp only [initializePlug, tearDownPlugs, mapPlugManager, wp_bind, wp_gets, wp_ite, wp_pure,
    wp_exceptException, wp_modify, wp_raise]
  split
  · exact .inl rfl
  · refine ((constructPlug_manager t).wp s).mono (fun plug s' h ↦ ?_) fun e s' h ↦ ?_
    · refine .inr ⟨plug, ?_⟩
      rw [← h]
      rfl
    · split
      · refine (tearDownPlugList_manager _ s').mono (fun _ s'' h' ↦ .inr ?_) fun _ _ hf ↦ hf.elim
        rw [← h, ← h']
        rfl
      · exact .inl h

theorem IndexInv.addType {m : PlugManager} (h : IndexInv classes m) (k : ℕ) :
    IndexInv classes (m.addType (classes.type k)) := by
  refine ⟨fun c hc ↦ ?_, h.agree.addType _⟩
  simp only [PlugManager.addType] at hc
  split_ifs at hc
  · exact h.known c hc
  · rcases List.mem_append.mp hc with hc | hc
    · exact h.known c hc
    · exact ⟨k, List.mem_singleton.mp hc⟩

theorem IndexInv.updatePlug {m : PlugManager} (h : IndexInv classes m) {k : ℕ}
    (hfree : m.NameFree classes (classes.type k)) (plug : PlugInstance) :
    IndexInv classes (m.updatePlug (classes.type k) plug) :=
  ⟨(h.addType k).known, h.agree.updatePlug hfree plug⟩

theorem indexInv_initializePlugList {cs : List PlugCls} (hcs : ∀ c ∈ cs, ∃ k, c = classes.cls k)
    (h : IndexInv classes s.testState.plugManager)
    (hfree : RunMeets initializeStep (fun s₁ c ↦ ∀ t, c = .plug t → (initializeStep s₁ c).isSome →
      s₁.testState.plugManager.NameFree classes t) cs s) :
    IndexInv classes (initializePlugList cs s).2.testState.plugManager := by
  induction cs generalizing s with
  | nil => exact h
  | cons c cs ih =>
      obtain ⟨k, rfl⟩ := hcs c List.mem_cons_self
      obtain ⟨hround, hrest⟩ := hfree
      have hcases := initializePlug_cases (classes.type k) s
      simp only [initializePlugList, bind_apply]
      cases hinit : OpenHtf.initializePlug (classes.cls k) s with
      | mk result s' =>
        cases result with
        | error e =>
            have hs' := hcases.of_error hinit
            show IndexInv classes s'.testState.plugManager
            rcases hs' with hs' | hs'
            · exact hs' ▸ h
            · exact hs' ▸ ⟨h.known, .clear classes _⟩
        | ok u =>
            have hstep : initializeStep s (classes.cls k) = some s' := by
              simp [initializeStep, hinit]
            refine ih (fun c hc ↦ hcs c (List.mem_cons_of_mem _ hc)) ?_ (hrest s' hstep)
            rcases hcases.of_ok hinit with hs' | ⟨plug, hs'⟩
            · exact hs' ▸ h
            · exact hs' ▸ h.updatePlug (hround _ rfl (by rw [hstep]; rfl)) plug

/-- When the `tearDown` of the replaced plug raises, only the set of the classes
has changed. -/
theorem indexInv_updatePlug (k : ℕ) (plug : PlugInstance)
    (tearDown : PlugInstance → ℕ → Except PyExc Unit) (h : IndexInv classes s.testState.plugManager)
    (hfree : s.testState.plugManager.NameFree classes (classes.type k)) :
    IndexInv classes (updatePlug (classes.type k) plug tearDown s).2.testState.plugManager := by
  refine (wp_same (P := fun s' : RunState ↦ IndexInv classes s'.testState.plugManager)).mp ?_
  have hadd := h.addType k
  have hupdate := hadd.updatePlug hfree plug
  simp only [updatePlug, mapPlugManager, wp_bind, wp_modify, wp_gets]
  split
  · rename_i replaced hreplaced
    simp only [noteStep, callRaising, wp_bind, wp_modify, wp_callUser]
    split
    · exact hupdate
    · exact hadd
  · exact hupdate

end Calls

/-! ## The result -/

theorem indexInv_step {classes : PlugClasses} {s s' : RunState} {c : PlugCall}
    (h : IndexInv classes s.testState.plugManager) (hnames : DistinctNames classes s c)
    (hstep : c.step classes s = some s') : IndexInv classes s'.testState.plugManager := by
  obtain rfl := Option.some.inj hstep
  cases c with
  | updatePlug k plug tearDown => exact indexInv_updatePlug k plug tearDown h hnames
  | initializePlugs plugTypes =>
      refine indexInv_initializePlugList ?_ h hnames
      cases plugTypes with
      | none => exact h.known
      | some plugTypes =>
          intro c hc
          obtain ⟨k, -, rfl⟩ := List.mem_map.mp hc
          exact ⟨k, rfl⟩

/-- In every run of calls in which no class is registered while another of its
name is, the two indexes agree. -/
theorem plugs_published (classes : PlugClasses) (plugTypes : List ℕ) (calls : List PlugCall) (s : RunState)
    (hnames : RunMeets (PlugCall.step classes) (DistinctNames classes) calls (classes.initial plugTypes))
    (hrun : runActions (PlugCall.step classes) calls (classes.initial plugTypes) = some s) :
    s.testState.plugManager.PlugsPublished classes := by
  have hinitial : IndexInv classes (classes.initial plugTypes).testState.plugManager := by
    refine ⟨fun c hc ↦ ?_, .empty classes _⟩
    obtain ⟨k, -, rfl⟩ := List.mem_map.mp hc
    exact ⟨k, rfl⟩
  have hend : IndexInv classes s.testState.plugManager :=
    run_invariant (I := fun s ↦ IndexInv classes s.testState.plugManager)
      (fun _ _ _ h hC hstep ↦ indexInv_step h hC hstep) hinitial hnames hrun
  exact hend.agree.plugsPublished

/-! ## The defect -/

/-- Two classes that are bound from one cannot both be registered with indexes
that agree. -/
theorem not_indexesAgree_bound {classes : PlugClasses} {m : PlugManager} {classDef : PlugType}
    {k k' : ℕ} {init init' : ℕ → PlugInit} (hne : k ≠ k')
    (hbound : classes.type k = bindInitArgs classDef k init)
    (hbound' : classes.type k' = bindInitArgs classDef k' init')
    (hk : (m.plugsByType.lookup k).isSome) (hk' : (m.plugsByType.lookup k').isSome) :
    ¬m.IndexesAgree classes := by
  intro h
  have hname : classes.getPlugName k = classes.getPlugName k' := by
    simp only [PlugClasses.getPlugName, hbound, hbound', bindInitArgs]
  exact hne (h.oneName k k' hk hk' hname)

/-- `Relay`, two classes that are bound from it, and the others. -/
def relays : PlugClasses where
  type k :=
    if k = 0 then { id := 0, name := "plugs.Relay" }
    else if k ≤ 2 then bindInitArgs { id := 0, name := "plugs.Relay" } k fun _ ↦ .made false
    else { id := k, name := "plugs.Fixture" }
  id_type k := by
    split_ifs <;> simp_all [bindInitArgs]

/-- The plug of a class that is bound is replaced after its initialisation. -/
theorem plugs_published_relays :
    ∃ s, runActions (PlugCall.step relays) [.initializePlugs (some [0, 1]),
        .updatePlug 1 ⟨9, 1⟩ fun _ _ ↦ .ok ()] (relays.initial []) = some s ∧
      s.testState.plugManager.PlugsPublished relays := by
  refine ⟨_, rfl, plugs_published relays [] [.initializePlugs (some [0, 1]),
    .updatePlug 1 ⟨9, 1⟩ fun _ _ ↦ .ok ()] _ ?_ rfl⟩
  refine ⟨⟨?_, ?_⟩, ?_⟩
  · rintro t ⟨⟩ -
    exact PlugManager.nameFree_of_forall (by simp [PlugClasses.initial])
  · rintro s₁ ⟨⟩
    refine ⟨?_, fun _ _ ↦ trivial⟩
    rintro t ⟨⟩ -
    exact PlugManager.nameFree_of_forall (by decide)
  · rintro s₂ ⟨⟩
    exact ⟨PlugManager.nameFree_of_forall (by decide), fun _ _ ↦ trivial⟩

theorem not_plugs_published_bound :
    ∃ s, runActions (PlugCall.step relays) [.initializePlugs (some [1, 2])] (relays.initial []) = some s ∧
      ¬s.testState.plugManager.PlugsPublished relays := by
  refine ⟨_, rfl, fun h ↦ ?_⟩
  have hne : 1 ≠ 2 := by decide
  exact not_indexesAgree_bound hne rfl rfl rfl rfl h.toIndexesAgree

end OpenHtf
