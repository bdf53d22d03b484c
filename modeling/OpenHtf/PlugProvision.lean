import OpenHtf.RunRules
import OpenHtf.TreeInvariant

/-!
# The plugs that phases ask for

`all_phases` finds every phase that the executors of the tree can meet, so
initialising the plug classes of a test provides each of them with its plugs.
-/

set_option autoImplicit false

namespace OpenHtf

open Act TestExecutor

/-! ## The phases that are met -/

theorem PhaseSequence.mem_allPhases {s : PhaseSequence} {p : PhaseDescriptor} :
    p ∈ s.allPhases ↔ .phase p ∈ s.allNodes := by
  rw [allPhases, List.mem_filterMap]
  constructor
  · rintro ⟨n, hn, hp⟩
    cases n with
    | phase q => exact Option.some.inj hp ▸ hn
    | _ => cases hp
  · exact fun h ↦ ⟨_, h, rfl⟩

/-- The phase that an event is about. -/
def Event.phase : Event → Option PhaseDescriptor
  | .visited _ (.phase p) _ | .executing _ (.phase p) _ | .ended _ (.phase p) _ _
  | .skipped _ (.phase p) _ _ => some p
  | _ => none

/-- The events since `w` are about phases that satisfy `P`. -/
def World.OnlyPhases (P : PhaseDescriptor → Prop) (w w' : World) : Prop :=
  ∃ l, w'.events = w.events ++ l ∧ ∀ e ∈ l, ∀ p ∈ e.phase, P p

theorem World.OnlyPhases.add {P : PhaseDescriptor → Prop} {w w₁ w₂ : World} {e : Event}
    (h : w.OnlyPhases P w₁) (hevents : w₂.events = w₁.events ++ [e]) (he : ∀ p ∈ e.phase, P p) :
    w.OnlyPhases P w₂ := by
  obtain ⟨l, hl, hmem⟩ := h
  refine ⟨l ++ [e], by rw [hevents, hl, List.append_assoc], fun e' he' ↦ ?_⟩
  rcases List.mem_append.mp he' with he' | he'
  · exact hmem e' he'
  · exact List.mem_singleton.mp he' ▸ he

theorem onlyPhases (env : Env) (exec : PhaseExecutor) (P : PhaseDescriptor → Prop) (w₀ : World) :
    TreeInvariant env exec (fun n ↦ ∀ p, n = .phase p → P p) (fun _ _ ↦ True) (w₀.OnlyPhases P)
      fun _ _ _ ↦ True where
  refl _ := trivial
  kept := runKept_any env exec
  same hevents _ _ _ hi := by
    obtain ⟨l, hl, hmem⟩ := hi
    exact ⟨l, hevents.trans hl, hmem⟩
  frame _ _ _ := trivial
  event {rec td w e} _ _ he hi := by
    have hleaf {n : PhaseNode} (hv : ∀ p, n = .phase p → P p) {o : Option PhaseDescriptor}
        (ho : ∀ p ∈ o, n = .phase p) : ∀ p ∈ o, P p := fun p hp ↦ hv p (ho p hp)
    refine hi.add rfl ?_
    cases he with
    | visited n hv => exact hleaf hv fun p hp ↦ by cases n <;> cases hp; rfl
    | executing n hv => exact hleaf hv fun p hp ↦ by cases n <;> cases hp; rfl
    | ended n o hv => exact hleaf hv fun p hp ↦ by cases n <;> cases hp; rfl
    | skipped n first next hv => exact hleaf hv fun p hp ↦ by cases n <;> cases hp; rfl
    | _ => exact nofun
  fail _ _ hi := hi.add rfl nofun
  node _ := trivial
  sequence _ _ := trivial
  teardown _ _ _ _ := trivial
  branch _ _ := trivial
  branched _ _ _ _ hi := hi.add rfl nofun
  begin _ _ hi := ⟨hi, trivial⟩
  done {rec td w w' s ret} _ _ _ _ _ hi := by
    have hend : w₀.OnlyPhases P
        ((w'.setCallstack w.callstack).endSubtest w.subtestsMade (w.subtestFails rec) ret) :=
      World.OnlyPhases.add (e := .subtestRecorded _ _ _ _) hi rfl nofun
    exact hend.add rfl nofun

/-- The executors meet no phase that `all_phases` does not find. -/
theorem executeNode_onlyPhases (env : Env) (exec : PhaseExecutor) (s : PhaseSequence) (w : World) :
    w.OnlyPhases (· ∈ s.allPhases) (executeNode env exec (.sequence s) none false w).2 := by
  have hknows : w.Knows none := nofun
  have hstart : w.OnlyPhases (· ∈ s.allPhases) w := ⟨[], by simp, nofun⟩
  refine wp_same.mp ((onlyPhases env exec (· ∈ s.allPhases) w).executeNode ?_ hknows trivial hstart)
  rintro m (rfl | hm) p hp
  · cases hp
  · exact PhaseSequence.mem_allPhases.mpr (hp ▸ hm)

/-! ## The plugs that are there -/

namespace PlugManager

/-- `_plugs_by_type` has an instance for the class. -/
def Registered (m : PlugManager) : PlugCls → Prop
  | .plug t => (m.plugsByType.lookup t.id).isSome = true
  | .placeholder _ => False

/-- The instances are registered for their own classes. -/
def WellTyped (m : PlugManager) : Prop :=
  ∀ k plug, m.plugsByType.lookup k = some plug → plug.plugType = k

theorem provides_iff {m : PlugManager} {p : PhaseDescriptor} :
    m.provides p = true ↔ ∀ plug ∈ p.plugs, plug.updateKwargs = true → m.Registered plug.cls := by
  simp only [provides, List.all_eq_true, List.mem_filter, and_imp]
  refine forall_congr' fun plug ↦ imp_congr_right fun _ ↦ imp_congr_right fun _ ↦ ?_
  cases plug.cls with
  | plug t => simp only [Registered, any_key_eq_isSome_lookup]
  | placeholder _ => simp [Registered]

theorem registered_updatePlug (m : PlugManager) (t : PlugType) (plug : PlugInstance) :
    (m.updatePlug t plug).Registered (.plug t) := by
  simp [Registered, updatePlug]

end PlugManager

/-- Plugs are only added, each for its own class. -/
structure PlugManager.Extends (m m' : PlugManager) : Prop where
  registered : ∀ c, m.Registered c → m'.Registered c
  wellTyped : m.WellTyped → m'.WellTyped

namespace PlugManager.Extends

variable {m m₁ m₂ : PlugManager}

theorem refl (m : PlugManager) : m.Extends m := ⟨fun _ h ↦ h, fun h ↦ h⟩

theorem trans (h : m.Extends m₁) (h' : m₁.Extends m₂) : m.Extends m₂ :=
  ⟨fun c hc ↦ h'.registered c (h.registered c hc), fun hm ↦ h'.wellTyped (h.wellTyped hm)⟩

theorem updatePlug (m : PlugManager) {t : PlugType} {plug : PlugInstance} (h : plug.plugType = t.id) :
    m.Extends (m.updatePlug t plug) where
  registered c hc := by
    cases c with
    | placeholder _ => exact hc
    | plug t' =>
        simp only [Registered, PlugManager.updatePlug, lookup_dictSet]
        split
        · rfl
        · exact hc
  wellTyped hm k plug' hk := by
    simp only [PlugManager.updatePlug, lookup_dictSet] at hk
    split at hk
    · rename_i hkey
      rw [← Option.some.inj hk, h, hkey]
    · exact hm k plug' hk

end PlugManager.Extends

section Initialize

variable {s : RunState}

theorem constructPlug_spec (t : PlugType) :
    wp (constructPlug t) (fun plug s' ↦ plug.plugType = t.id ∧
      s'.testState.plugManager = s.testState.plugManager) (fun _ _ ↦ True) s := by
  simp only [constructPlug, wp_ite, wp_raise, wp_bind, wp_gets, wp_callUser]
  split_ifs
  cases t.init s.moment with
  | raised e => trivial
  | made setsLogger => cases setsLogger <;> simp [noteStep, RunState.addStep]

/-- When a class is initialised, a plug is registered for it. -/
theorem initializePlug_spec (c : PlugCls) :
    wp (initializePlug c) (fun _ s' ↦
      s.testState.plugManager.Extends s'.testState.plugManager ∧
        s'.testState.plugManager.Registered c) (fun _ _ ↦ True) s := by
  cases c with
  | placeholder _ => trivial
  | plug t =>
      simp only [initializePlug, mapPlugManager, wp_bind, wp_gets, wp_ite, wp_pure,
        wp_exceptException, wp_modify, wp_raise]
      split
      · rename_i hthere
        refine ⟨.refl _, ?_⟩
        rwa [PlugManager.hasType, any_key_eq_isSome_lookup] at hthere
      · refine (constructPlug_spec t).mono (fun plug s' h ↦ ?_) fun e s' _ ↦ ?_
        · obtain ⟨htype, hmanager⟩ := h
          simp only [RunState.mapTestState, hmanager]
          exact ⟨.updatePlug _ htype, PlugManager.registered_updatePlug _ _ _⟩
        · split
          · exact wp_same.mpr trivial
          · trivial

theorem initializePlugList_spec (cs : List PlugCls) :
    wp (initializePlugList cs) (fun _ s' ↦
      s.testState.plugManager.Extends s'.testState.plugManager ∧
        ∀ c ∈ cs, s'.testState.plugManager.Registered c) (fun _ _ ↦ True) s := by
  induction cs generalizing s with
  | nil => exact ⟨.refl _, nofun⟩
  | cons c cs ih =>
      rw [initializePlugList, wp_bind]
      refine (initializePlug_spec c).mono (fun _ s₁ h ↦ ?_) fun _ _ _ ↦ trivial
      obtain ⟨hfirst, hc⟩ := h
      refine ih.mono (fun _ s₂ h ↦ ?_) fun _ _ _ ↦ trivial
      obtain ⟨hrest, hcs⟩ := h
      refine ⟨hfirst.trans hrest, fun c' hc' ↦ ?_⟩
      rcases List.mem_cons.mp hc' with rfl | hc'
      · exact hrest.registered _ hc
      · exact hcs c' hc'

end Initialize

/-! ## The plugs during the run of a tree -/

/-- The plug manager stays as it is. -/
def SamePlugs (s s' : RunState) : Prop := s'.testState.plugManager = s.testState.plugManager

instance : Std.Refl SamePlugs where
  refl _ := rfl

instance : IsTrans RunState SamePlugs where
  trans _ _ _ h h' := Eq.trans h' h

theorem writesKept_samePlugs (env : Env) : WritesKept env SamePlugs where
  shared _ _ := rfl
  noteThread _ _ := rfl
  callUser _ _ := rfl
  noteStep _ _ _ := rfl
  phaseState _ _ := rfl
  addPhaseRecord _ := rfl
  addSubtestRecord _ _ := rfl
  addBranchRecord _ _ := rfl
  addCheckpointRecord _ _ := rfl
  recordDiagnosis _ _ := rfl
  storeDiagnosis _ _ := rfl
  skipLast _ _ _ _ := rfl

/-- Every phase that the executors can meet is one that `all_phases` finds; and
when `initialize_plugs` has succeeded on the plug classes of a test, all of the
plugs that such a phase looks up are registered for their classes for as long as
the tree is executed. -/
theorem executable_phases_have_plugs (env : Env) (test : Test) :
    (∀ (exec : PhaseExecutor) (w : World),
      ∀ e ∈ w.emitted (executeNode env exec (.sequence test.phaseSequence) none false w).2,
      ∀ p ∈ e.phase, p ∈ test.phaseSequence.allPhases) ∧
    ∀ (plugTypes : Option (List PlugCls)) (s s' : RunState) (w : World),
      (∀ c ∈ test.plugTypes, c ∈ plugTypes.getD s.testState.plugManager.plugTypes) →
      initializePlugTypes plugTypes s = (.ok (), s') →
      w.run.testState.plugManager = s'.testState.plugManager →
      let m := (executeNode env (phaseExecutor env) (.sequence test.phaseSequence) none false
        w).2.run.testState.plugManager
      m = s'.testState.plugManager ∧ (s.testState.plugManager.WellTyped → m.WellTyped) ∧
        ∀ p ∈ test.phaseSequence.allPhases, m.provides p = true ∧
          ∀ plug ∈ p.plugs, plug.updateKwargs = true → m.Registered plug.cls := by
  refine ⟨fun exec w e he p hp ↦ ?_, fun plugTypes s s' w hcs hinit hw ↦ ?_⟩
  · obtain ⟨l, hl, hmem⟩ := executeNode_onlyPhases env exec test.phaseSequence w
    rw [World.emitted_of_eq hl] at he
    exact hmem e he p hp
  · intro m
    have hsame : m = s'.testState.plugManager :=
      ((writesKept_samePlugs env).tree.tree.1 _ none false w).run.trans hw
    have hlist := initializePlugList_spec (s := s) (plugTypes.getD s.testState.plugManager.plugTypes)
    obtain ⟨hext, hreg⟩ := hlist.of_ok hinit
    have hplug (p : PhaseDescriptor) (hp : p ∈ test.phaseSequence.allPhases) (plug : PhasePlug)
        (hmem : plug ∈ p.plugs) : m.Registered plug.cls :=
      hsame ▸ hreg _ (hcs _ (List.mem_flatMap.mpr ⟨p, hp, List.mem_map.mpr ⟨plug, hmem, rfl⟩⟩))
    refine ⟨hsame, fun ht ↦ hsame ▸ hext.wellTyped ht, fun p hp ↦ ⟨?_, fun plug hmem _ ↦ ?_⟩⟩
    · exact PlugManager.provides_iff.mpr fun plug hmem _ ↦ hplug p hp plug hmem
    · exact hplug p hp plug hmem

/-- A test whose phase with a plug is the teardown of a group in a subtest. -/
def nestedPlugTest : Test where
  phaseSequence := .mk .plain none [.sequence (.mk .subtest none [.group (.new .none .none (.nodes [
    .phase { id := 0, name := "measure", plugs := [{ name := "meter", cls := .plug { id := 7, name := "Meter" } }] }
    ]))])]

theorem executable_phases_have_plugs_nested :
    let s : RunState := { testState := { plugManager := { plugTypes := nestedPlugTest.plugTypes } } }
    let w : World := { run := (initializePlugTypes none s).2 }
    ∀ p ∈ nestedPlugTest.phaseSequence.allPhases,
      (executeNode {} (phaseExecutor {}) (.sequence nestedPlugTest.phaseSequence) none false
        w).2.run.testState.plugManager.provides p = true := by
  intro s w p hp
  have h := (executable_phases_have_plugs {} nestedPlugTest).2 none s (initializePlugTypes none s).2 w
    (fun _ hc ↦ hc) rfl rfl
  exact (h.2.2 p hp).1

end OpenHtf
