import Mathlib.Data.List.Nodup
import Mathlib.Data.List.Pairwise
import OpenHtf.RunRules

/-!
# The lives of plugs

An instance is constructed by `initialize_plugs`, is registered in the plug
manager, and is torn down when the manager is.  Only an instance that fails the
check made after its construction is never registered.
-/

set_option autoImplicit false

namespace OpenHtf

open Act TestExecutor

/-! ## What has become of the instances -/

def Step.made : Step → Option PlugInstance
  | plugConstructed p _ => some p
  | _ => none

/-- The instance passed the check made after its construction. -/
def Step.admitted : Step → Option PlugInstance
  | plugConstructed p false => some p
  | _ => none

def Step.tornDown : Step → Option PlugInstance
  | plugTornDown p => some p
  | _ => none

def Step.isAboutPlug : Step → Bool
  | plugConstructed _ _ | plugTornDown _ => true
  | _ => false

theorem Step.made_of_admitted {x : Step} {p : PlugInstance} (h : x.admitted = some p) :
    x.made = some p := by
  unfold admitted at h
  split at h
  · exact h
  · cases h

namespace RunState

theorem filterMap_addStep {α : Type} (f : Step → Option α) (x : Step) (s : RunState) :
    (s.addStep x).steps.filterMap f = s.steps.filterMap f ++ (f x).toList := by
  cases h : f x <;> simp [addStep, h]

def made (s : RunState) : List PlugInstance := s.steps.filterMap Step.made

def admitted (s : RunState) : List PlugInstance := s.steps.filterMap Step.admitted

def tornDown (s : RunState) : List PlugInstance := s.steps.filterMap Step.tornDown

@[simp] theorem made_addStep (x : Step) (s : RunState) :
    (s.addStep x).made = s.made ++ x.made.toList := filterMap_addStep _ _ _

@[simp] theorem admitted_addStep (x : Step) (s : RunState) :
    (s.addStep x).admitted = s.admitted ++ x.admitted.toList := filterMap_addStep _ _ _

@[simp] theorem tornDown_addStep (x : Step) (s : RunState) :
    (s.addStep x).tornDown = s.tornDown ++ x.tornDown.toList := filterMap_addStep _ _ _

def registered (s : RunState) : List PlugInstance :=
  s.testState.plugManager.plugsByType.map Prod.snd

/-- The instances have been made at different moments, and those that were
admitted have been torn down but for `live`. -/
structure PlugLedger (live : List PlugInstance) (s : RunState) : Prop where
  nodup : s.made.Nodup
  before : ∀ p ∈ s.made, p.id < s.moment
  admitted : s.admitted.Perm (s.tornDown ++ live)

/-- The instances that live are the registered ones. -/
def PlugsKept (s : RunState) : Prop := s.PlugLedger s.registered

namespace PlugLedger

variable {live : List PlugInstance} {s s' : RunState}

theorem of_steps (h : s.PlugLedger live) (hmade : s'.made = s.made)
    (hadmitted : s'.admitted = s.admitted) (htorn : s'.tornDown = s.tornDown)
    (hmoment : s.moment ≤ s'.moment) : s'.PlugLedger live where
  nodup := hmade ▸ h.nodup
  before p hp := Nat.lt_of_lt_of_le (h.before p (hmade ▸ hp)) hmoment
  admitted := by
    rw [hadmitted, htorn]
    exact h.admitted

theorem of_eq (h : s.PlugLedger live) (hsteps : s'.steps = s.steps)
    (hmoment : s.moment ≤ s'.moment := by exact Nat.le_refl _) : s'.PlugLedger live :=
  h.of_steps (congrArg (List.filterMap Step.made) hsteps)
    (congrArg (List.filterMap Step.admitted) hsteps) (congrArg (List.filterMap Step.tornDown) hsteps) hmoment

theorem addStep (h : s.PlugLedger live) {x : Step} (hx : x.isAboutPlug = false) :
    (s.addStep x).PlugLedger live := by
  have hmade : x.made = none := by cases x <;> first | rfl | cases hx
  have hadmitted : x.admitted = none := by cases x <;> first | rfl | cases hx
  have htorn : x.tornDown = none := by cases x <;> first | rfl | cases hx
  exact h.of_steps (by simp [hmade]) (by simp [hadmitted]) (by simp [htorn]) (Nat.le_refl _)

/-- A new instance, made later than all others. -/
theorem construct (h : s.PlugLedger live) {p : PlugInstance} (hnew : ∀ q ∈ s.made, q.id < p.id)
    (hp : p.id < s.moment) (setsLogger : Bool) :
    (s.addStep (.plugConstructed p setsLogger)).PlugLedger
      (live ++ if setsLogger then [] else [p]) := by
  refine ⟨?_, ?_, ?_⟩
  · rw [made_addStep]
    refine List.nodup_append.mpr ⟨h.nodup, List.nodup_singleton p, ?_⟩
    rintro q hq r hr rfl
    obtain rfl := List.mem_singleton.mp hr
    exact Nat.lt_irrefl _ (hnew q hq)
  · rw [made_addStep]
    intro q hq
    rcases List.mem_append.mp hq with hq | hq
    · exact h.before q hq
    · obtain rfl := List.mem_singleton.mp hq
      exact hp
  · cases setsLogger with
    | true => simpa [Step.admitted, Step.tornDown] using h.admitted
    | false => simpa [Step.admitted, Step.tornDown] using h.admitted.append_right [p]

/-- The first of the live instances is torn down. -/
theorem tearDown {p : PlugInstance} (h : s.PlugLedger (p :: live)) :
    (s.addStep (.plugTornDown p)).PlugLedger live where
  nodup := by simpa [Step.made] using h.nodup
  before := by simpa [Step.made] using h.before
  admitted := by simpa [Step.admitted, Step.tornDown] using h.admitted

/-- An instance is made in one step. -/
def MadeOnce (x y : Step) : Prop := ∀ p, x.made = some p → ∀ q, y.made = some q → p ≠ q

instance : Std.Symm MadeOnce where
  symm _ _ h p hp q hq := (h q hq p hp).symm

theorem madeOnce (h : s.PlugLedger live) : s.steps.Pairwise MadeOnce :=
  List.pairwise_filterMap.mp h.nodup

theorem admitted_nodup (h : s.PlugLedger live) : s.admitted.Nodup := by
  refine List.pairwise_filterMap.mpr (h.madeOnce.imp ?_)
  intro x y hne p hp q hq
  exact hne p (Step.made_of_admitted hp) q (Step.made_of_admitted hq)

theorem not_admitted (h : s.PlugLedger live) {p : PlugInstance}
    (hp : .plugConstructed p true ∈ s.steps) : p ∉ s.admitted := by
  intro hadmitted
  obtain ⟨x, hx, hxp⟩ := List.mem_filterMap.mp hadmitted
  have hne : .plugConstructed p true ≠ x := by
    rintro rfl
    cases hxp
  exact h.madeOnce.forall hp hx hne p rfl p (Step.made_of_admitted hxp) rfl

/-- When nothing lives any more, an instance has been torn down once if it was
admitted, and never if it was not. -/
theorem count_tornDown (h : s.PlugLedger []) (p : PlugInstance) :
    s.tornDown.count p = if p ∈ s.admitted then 1 else 0 := by
  have hperm : s.admitted.Perm s.tornDown := by simpa using h.admitted
  rw [← hperm.count_eq]
  split
  · exact List.count_eq_one_of_mem h.admitted_nodup ‹_›
  · exact List.count_eq_zero_of_not_mem ‹_›

end PlugLedger

namespace PlugsKept

variable {s : RunState}

theorem of_ledger {s' : RunState} (h : s'.PlugLedger s.registered)
    (hmanager : s'.testState.plugManager = s.testState.plugManager) : s'.PlugsKept := by
  have hsame : s'.registered = s.registered := by rw [registered, registered, hmanager]
  rwa [PlugsKept, hsame]

theorem of_eq {s' : RunState} (h : s.PlugsKept) (hsteps : s'.steps = s.steps)
    (hmanager : s'.testState.plugManager = s.testState.plugManager)
    (hmoment : s.moment ≤ s'.moment := by exact Nat.le_refl _) : s'.PlugsKept :=
  of_ledger (PlugLedger.of_eq h hsteps hmoment) hmanager

theorem addStep (h : s.PlugsKept) {x : Step} (hx : x.isAboutPlug = false) : (s.addStep x).PlugsKept :=
  of_ledger (PlugLedger.addStep h hx) rfl

theorem mapTestState (h : s.PlugsKept) {f : TestState → TestState}
    (hf : (f s.testState).plugManager = s.testState.plugManager) : (s.mapTestState f).PlugsKept :=
  h.of_eq rfl hf

end PlugsKept

end RunState

/-! ## The plug manager -/

section Plugs

open RunState

theorem writesKept_plugsKept (env : Env) : WritesKept env (Preserves PlugsKept) where
  shared _ _ h := h.of_eq rfl rfl
  noteThread _ _ h := h.of_eq rfl rfl
  callUser _ _ h := h.of_eq rfl rfl (Nat.le_succ _)
  noteStep x hx _ h := h.addStep (by cases x <;> first | rfl | cases hx)
  phaseState _ _ h := h.of_eq rfl rfl
  addPhaseRecord _ h := h.mapTestState rfl
  addSubtestRecord _ _ h := h.mapTestState rfl
  addBranchRecord _ _ h := h.mapTestState rfl
  addCheckpointRecord _ _ h := h.mapTestState rfl
  recordDiagnosis _ _ h := h.mapTestState rfl
  storeDiagnosis _ _ h := h.mapTestState rfl
  skipLast _ _ _ _ h := (PlugsKept.addStep h rfl).mapTestState rfl

/-- All registered plugs are torn down, and none is registered any more. -/
theorem tearDownPlugs_plugs {s : RunState} (h : s.PlugsKept) :
    wp tearDownPlugs (fun _ s' ↦ s'.PlugsKept ∧ s'.testState.plugManager.plugsByType = [] ∧
      s'.testState.plugManager.plugsByName = []) (fun _ _ ↦ False) s := by
  have hlist (items : List (ℕ × PlugInstance)) (s : RunState)
      (h : s.PlugLedger (items.map Prod.snd)) :
      wp (tearDownPlugList items) (fun _ s' ↦ s'.PlugLedger []) (fun _ _ ↦ False) s := by
    induction items generalizing s with
    | nil => exact h
    | cons item items ih =>
        simp only [tearDownPlugList, noteStep, wp_bind, wp_modify]
        exact ih _ h.tearDown
  simp only [tearDownPlugs, mapPlugManager, wp_bind, wp_gets, wp_modify]
  refine (hlist _ s h).mono (fun _ s' hs ↦ ?_) fun _ _ hf ↦ hf
  exact ⟨PlugLedger.of_eq hs rfl, rfl, rfl⟩

/-- A plug that is returned lives and is not registered yet. -/
theorem constructPlug_plugs (t : PlugType) {s : RunState} (h : s.PlugsKept) :
    wp (constructPlug t)
      (fun p s' ↦ s'.PlugLedger (s.registered ++ [p]) ∧
        s'.testState.plugManager = s.testState.plugManager)
      (fun _ ↦ PlugsKept) s := by
  have hcalled : ({ s with moment := s.moment + 1 } : RunState).PlugLedger s.registered :=
    PlugLedger.of_eq h rfl (Nat.le_succ _)
  simp only [constructPlug, wp_ite, wp_raise, wp_bind, wp_gets, wp_callUser]
  split_ifs
  · exact h
  · exact h
  · cases t.init s.moment with
    | raised e => exact PlugsKept.of_ledger (hcalled.addStep rfl) rfl
    | made setsLogger =>
        have hmade := hcalled.construct (p := ⟨s.moment, t.id⟩) h.before (Nat.lt_succ_self _) setsLogger
        simp only [noteStep, wp_bind, wp_modify, wp_ite, wp_raise, wp_pure]
        cases setsLogger with
        | true => exact PlugsKept.of_ledger (s := s) (by simpa using hmade) rfl
        | false => exact ⟨hmade, rfl⟩

theorem plugsKept_initializePlug (c : PlugCls) : Within (Preserves PlugsKept) (initializePlug c) := by
  intro s hs
  refine (wp_same (P := PlugsKept)).mp ?_
  cases c with
  | placeholder _ => exact hs
  | plug t =>
      simp only [initializePlug, mapPlugManager, wp_bind, wp_gets, wp_ite, wp_pure, wp_exceptException,
        wp_modify, wp_raise]
      split
      · exact hs
      · rename_i hnew
        refine (constructPlug_plugs t hs).mono (fun p s' hp ↦ ?_) fun e s' hs' ↦ ?_
        · obtain ⟨hledger, hmanager⟩ := hp
          have hadd : (s'.mapTestState fun t' ↦
              { t' with plugManager := t'.plugManager.updatePlug t p }).registered =
                s.registered ++ [p] := by
            have hkey : s.testState.plugManager.plugsByType.any (·.1 = t.id) = false := by
              exact Bool.eq_false_iff.mpr hnew
            simp [registered, mapTestState, PlugManager.updatePlug, hmanager, dictSet_eq_append hkey]
          rw [PlugsKept, hadd]
          exact hledger.of_eq rfl
        · split
          · exact (tearDownPlugs_plugs hs').mono (fun _ _ h ↦ h.1) fun _ _ hf ↦ hf.elim
          · exact hs'

theorem plugsKept_initializePlugTypes (plugTypes : Option (List PlugCls)) :
    Within (Preserves PlugsKept) (initializePlugTypes plugTypes) := by
  have hlist (cs : List PlugCls) : Within (Preserves PlugsKept) (initializePlugList cs) := by
    induction cs with
    | nil => exact .pure
    | cons c cs ih => exact .bind (plugsKept_initializePlug c) fun _ ↦ ih
  exact .bind .gets fun _ ↦ hlist _

end Plugs

/-! ## A whole run -/

/-- No plug is registered. -/
def PlugManager.IsEmpty (m : PlugManager) : Prop := m.plugsByType = [] ∧ m.plugsByName = []

theorem finishKept_isEmpty (env : Env) :
    FinishKept env (Preserves fun s ↦ s.testState.plugManager.IsEmpty) where
  abortIsSet _ h := h
  callUser _ _ h := h
  finalisation _ _ _ h := h
  testState _ hf s h :=
    (congrArg PlugManager.IsEmpty (TestState.plugManager_of_lasting (hf s.testState))).mpr h

theorem threadKept_plugsKept (env : Env) :
    ThreadKept env (Preserves RunState.PlugsKept) (World.OnRun (Preserves RunState.PlugsKept)) :=
  (writesKept_plugsKept env).thread (fun x hx _ h ↦ h.addStep (by cases x <;> first | rfl | cases hx))
    (fun _ hf s h ↦ h.mapTestState (TestState.plugManager_of_lasting (hf s.testState)))
    plugsKept_initializePlugTypes fun _ hs ↦
    wp_same.mp ((tearDownPlugs_plugs hs).mono (fun _ _ h ↦ h.1) fun _ _ hf ↦ hf.elim)

/-- At the end of a test whose `TestState` was made no plug is registered. -/
theorem endThread_isEmpty (env : Env) {w : World} (hcreated : w.testStateCreated = true)
    (hw : w.run.PlugsKept) : (endThread env w).2.run.testState.plugManager.IsEmpty := by
  refine wp_same (P := fun w : World ↦ w.run.testState.plugManager.IsEmpty).mp ?_
  rw [endThread, executeTestTeardown_eq]
  simp only [wp_bind, wp_gets, wp_ite, hcreated, Bool.not_true, Bool.false_eq_true, if_false, wp_onRun,
    wp_modify]
  refine (tearDownPlugs_plugs hw).mono (fun _ s' hs' ↦ ?_) fun _ _ hf ↦ hf.elim
  refine wp_same.mpr ?_
  obtain ⟨s, hs, hrun⟩ := (finishKept_isEmpty env).finishTest (w.setRun s')
  rw [hrun]
  exact hs hs'.2

/-- At the end of every run the plugs that were admitted have been torn down. -/
theorem plugs_final (env : Env) (test : Test) (abortCalls : ℕ) :
    (World.final env test abortCalls).run.PlugLedger [] ∧
      (World.final env test abortCalls).run.testState.plugManager.IsEmpty := by
  have hinitial : (World.initial test abortCalls).run.PlugsKept := ⟨by simp [World.initial, RunState.made],
    by simp [World.initial, RunState.made], .nil⟩
  have hcreated : ((World.initial test abortCalls).withTestState test).run.PlugsKept :=
    ⟨hinitial.nodup, hinitial.before, hinitial.admitted⟩
  have h := threadKept_plugsKept env
  rcases h.body.threadProc test (w := World.initial test abortCalls) rfl with hrun | ⟨w', hw', hrun⟩
  · rw [World.final, hrun]
    exact ⟨hinitial, rfl, rfl⟩
  · have hkept := hw'.run hcreated
    have hempty := endThread_isEmpty env hw'.created hkept
    rw [World.final, hrun]
    refine ⟨?_, hempty⟩
    have hend := (h.endThread w').run hkept
    rwa [RunState.PlugsKept, RunState.registered, hempty.1] at hend

/-- A test of one phase, whose plug sets its logger. -/
def setsLoggerTest : Test where
  phaseSequence := .mk .plain none [.phase {
    id := 0
    name := "measure"
    plugs := [{ name := "meter", cls := .plug { id := 0, name := "Meter", init := fun _ ↦ .made true } }] }]

end OpenHtf
