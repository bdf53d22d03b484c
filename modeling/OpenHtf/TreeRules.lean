import OpenHtf.TreeFrame

/-!
# Rules for the executors of the tree

A property of the executors is a precondition for each kind of node and a
relation between the world before, the value returned and the world after.  It
holds of `_execute_node` when it composes along `_more_critical` and when each
kind of node has it, given that what is below has it.
-/

set_option autoImplicit false

namespace OpenHtf

open Act TestExecutor

theorem moreCritical_continue_right (r : ExecutorReturn) : moreCritical r .CONTINUE = r := by
  cases r <;> rfl

theorem moreCritical_terminal_right (r : ExecutorReturn) : moreCritical r .TERMINAL = .TERMINAL := by
  cases r <;> rfl

/-! ## Statements around the execution of a node -/

/-- The world after an operation on the shared state. -/
def World.afterShared {α : Type} (env : Env) (op : Sync → α × Sync) (w : World) : World :=
  w.setRun { w.run with sync := (op (w.run.sync.interfere env.schedule)).2 }

/-- The world once the condition of a branch is evaluated. -/
def World.evaluating (s : PhaseSequence) (inTeardown : Bool) (w : World) : World :=
  (w.setRun (RunState.addStep (.branchEvaluated s.name w.run.moment w.inBranch)
    { w.run with moment := w.run.moment + 1 })).addEvent
    (.executing w.callstack (.sequence s) inTeardown)

/-- The world once the record of a branch is added. -/
def World.addBranch (s : PhaseSequence) (c : DiagnosisCondition) (taken : Bool) (millis : ℕ)
    (w : World) : World :=
  w.setRun (w.run.mapTestRecord (·.addBranchRecord ⟨s.name, c, taken, millis⟩))

/-- The world once an exception has escaped from the body of a branch. -/
def World.loseBranch (w : World) : World := w.setRun (w.run.addStep .branchLost)

/-- The teardown of a group that was entered in `w` and whose setup ended in `w₁` is skipped. -/
def World.skipsTeardown (g : PhaseGroup) (rec : Option ℕ) (w w₁ : World) : Bool :=
  w.subtestFails rec || (g.setup.isSome && w₁.subtestFails rec)

section Wrappers

variable {env : Env} {rec : Option ℕ} {inTeardown : Bool} {s : PhaseSequence}
  {x : Executor ExecutorReturn} {Q : ExecutorReturn → World → Prop} {E : PyExc → World → Prop}

@[simp] theorem wp_noteEvent {e : List Frame → Event} {R : Unit → World → Prop} :
    wp (noteEvent e) R E = fun w ↦ R () (w.addEvent (e w.callstack)) := rfl

@[simp] theorem wp_visiting {n : PhaseNode} :
    wp (visiting n inTeardown x) Q E = fun w ↦
      wp x (fun r w' ↦ Q r (w'.setCallstack w.callstack))
        (fun e w' ↦ E e (w'.setCallstack w.callstack))
        ((w.addEvent (.visited w.callstack n inTeardown)).setCallstack
          (.node inTeardown :: w.callstack)) := by
  simp [visiting]

@[simp] theorem wp_reaching :
    wp (reaching s rec inTeardown x) Q E = fun w ↦
      wp x (fun r w' ↦ Q r (w'.addEvent (.completed s inTeardown (w.subtestFails rec))))
        (fun e w' ↦ E e (w'.addEvent (.abandoned s inTeardown (w.subtestFails rec))))
        (w.addEvent (.reached s inTeardown (w.subtestFails rec))) := by
  simp [reaching]

@[simp] theorem wp_enteringGroup :
    wp (enteringGroup env x) Q E = fun w ↦ wp x Q E (w.afterShared env Sync.enterGroup) := by
  simp [enteringGroup, World.afterShared]

@[simp] theorem wp_withTeardownPhasesLock :
    wp (withTeardownPhasesLock env x) Q E = fun w ↦
      wp x (fun r w' ↦ Q r (w'.afterShared env Sync.releaseTeardownPhasesLock))
        (fun e w' ↦ E e (w'.afterShared env Sync.releaseTeardownPhasesLock))
        (w.afterShared env Sync.acquireTeardownPhasesLock) := by
  simp [withTeardownPhasesLock, World.afterShared]

theorem wp_executePhaseBranch {c : DiagnosisCondition} :
    wp (executePhaseBranch s c rec inTeardown x) Q E = fun w ↦
      if (!inTeardown && w.subtestFails rec) = true then Q .CONTINUE w
      else if c.check w.run.testState.diagnosesStore = true then
        wp x (fun r w' ↦ Q r ((w'.setCallstack w.callstack).addBranch s c true w.run.moment))
          (fun e w' ↦ E e (w'.loseBranch.setCallstack w.callstack))
          ((w.evaluating s inTeardown).setCallstack
            (.branch c w.run.testState.diagnosesStore :: w.callstack))
      else Q .CONTINUE ((w.evaluating s inTeardown).addBranch s c false w.run.moment) := by
  funext w
  simp only [executePhaseBranch, autoSkips, timeMillis, noteStep, wp_bind, wp_gets, wp_ite, wp_onRun,
    wp_callUser, wp_noteEvent, wp_within, wp_catching, wp_raise, wp_modify, wp_pure]
  split
  · rfl
  · cases hc : c.check w.run.testState.diagnosesStore <;> simp [hc] <;> rfl

theorem wp_executePhaseGroup {g : PhaseGroup} {setup main : Executor ExecutorReturn}
    {teardown : Bool → Executor ExecutorReturn} :
    wp (executePhaseGroup g rec inTeardown setup main teardown) Q E = fun w ↦
      wp setup (fun r w₁ ↦
        if r ≠ .CONTINUE then Q r w₁
        else wp main (fun r' w₂ ↦
            wp (teardown (!w.skipsTeardown g rec w₁))
              (fun r'' w₃ ↦ Q (moreCritical r' r'') (w₃.addEvent (.groupCompleted w₃.callstack g)))
              E (w₂.addEvent (.groupTeardown w₂.callstack g (!w.skipsTeardown g rec w₁))))
          E (w₁.addEvent (.groupMain w₁.callstack g inTeardown (w₁.subtestFails rec)))) E w := by
  funext w
  simp only [executePhaseGroup, wp_bind, wp_gets, wp_ite, wp_noteEvent, wp_pure]
  rfl

end Wrappers

theorem treeFrame_setRun {rec : Option ℕ} (s : RunState) (w : World) : TreeFrame rec w (w.setRun s) :=
  .of_eq rfl rfl rfl (fun _ ↦ rfl) (Nat.le_refl _) fun _ _ ↦ rfl

theorem treeFrame_evaluating {rec : Option ℕ} {s : PhaseSequence} {td : Bool} {w : World} :
    TreeFrame rec w (w.evaluating s td) :=
  (treeFrame_setRun _ w).trans (treeFrame_addEvent (by simp [Event.ctx]) (by simp))

theorem treeFrame_afterShared {α : Type} {env : Env} {op : Sync → α × Sync} {rec : Option ℕ}
    (w : World) : TreeFrame rec w (w.afterShared env op) :=
  .of_eq rfl rfl rfl (fun _ ↦ rfl) (Nat.le_refl _) fun _ _ ↦ rfl

/-- The teardown of a group runs as one when the subtest has not failed by the
time its main starts. -/
theorem skipsTeardown_eq_false {g : PhaseGroup} {rec : Option ℕ} {w w₁ : World} (hw : w.Knows rec)
    (hf : TreeFrame rec w w₁) (h : w₁.subtestFails rec = false) :
    w.skipsTeardown g rec w₁ = false := by
  have hentry : w.subtestFails rec = false := by
    by_contra hne
    have hfail := hf.subtestFails hw (by simpa using hne)
    simp [h] at hfail
  simp [World.skipsTeardown, hentry, h]

/-- The sequence `s` is a part of a group that may be met. -/
def IsPart (valid : PhaseNode → Prop) (s : PhaseSequence) : Prop :=
  ∃ g, valid (.group g) ∧ (s ∈ g.setup ∨ s ∈ g.main ∨ s ∈ g.teardown)

/-- A property of the executors of the tree. -/
structure TreeSpec where
  /-- The nodes that may be met. -/
  valid : PhaseNode → Prop
  /-- What holds before a node. -/
  node : PhaseNode → Option ℕ → Bool → World → Prop
  /-- What holds between two nodes of a sequence. -/
  loop : Option ℕ → Bool → World → Prop
  /-- What holds before a sequence. -/
  sequence : PhaseSequence → Option ℕ → Bool → World → Prop
  returns : Option ℕ → World → ExecutorReturn → World → Prop
  raises : Option ℕ → World → World → Prop

namespace TreeSpec

variable (T : TreeSpec)

/-- From a world that satisfies `P`, `x` does what `T` says. -/
def Holds (P : World → Prop) (rec : Option ℕ) (x : Executor ExecutorReturn) : Prop :=
  ∀ w, w.Knows rec → P w → wp x (T.returns rec w) (fun _ ↦ T.raises rec w) w

/-- The same, together with the frame. -/
def Meets (P : World → Prop) (rec : Option ℕ) (x : Executor ExecutorReturn) : Prop :=
  ∀ w, w.Knows rec → P w →
    wp x (fun r w' ↦ TreeFrame rec w w' ∧ T.returns rec w r w')
      (fun _ w' ↦ TreeFrame rec w w' ∧ T.raises rec w w') w

variable {T}

theorem Holds.meets {P : World → Prop} {rec : Option ℕ} {x : Executor ExecutorReturn}
    (h : T.Holds P rec x) (hx : Within (Framed rec) x) : T.Meets P rec x := fun w hw hp ↦
  ((hx.wp w).and (h w hw hp)).mono (fun _ _ hr ↦ ⟨hr.1 hw, hr.2⟩) fun _ _ hr ↦ ⟨hr.1 hw, hr.2⟩

variable (T)

/-- The property composes, and each kind of node has it when what is below has it. -/
structure Sound (env : Env) (exec : PhaseExecutor) : Prop where
  none : ∀ {rec w}, T.returns rec w .CONTINUE w
  andThen : ∀ {rec w w₁ w₂ r r'}, TreeFrame rec w w₁ → TreeFrame rec w₁ w₂ →
    T.returns rec w r w₁ → T.returns rec w₁ r' w₂ → T.returns rec w (moreCritical r r') w₂
  andRaise : ∀ {rec w w₁ w₂ r}, TreeFrame rec w w₁ → TreeFrame rec w₁ w₂ →
    T.returns rec w r w₁ → T.raises rec w₁ w₂ → T.raises rec w w₂
  loop : ∀ {rec td w w₁ r}, w.Knows rec → TreeFrame rec w w₁ → T.loop rec td w →
    T.returns rec w r w₁ → T.loop rec td w₁
  phase : ∀ p rec td, T.valid (.phase p) →
    T.Holds (T.node (.phase p) rec td) rec (executeNode env exec (.phase p) rec td)
  checkpoint : ∀ c rec td, T.valid (.checkpoint c) →
    T.Holds (T.node (.checkpoint c) rec td) rec (executeNode env exec (.checkpoint c) rec td)
  unhandled : ∀ rec td, T.valid .unhandled →
    T.Holds (T.node .unhandled rec td) rec (executeNode env exec .unhandled rec td)
  sequenceNode : ∀ s rec td, T.valid (.sequence s) →
    (∀ rec, T.Meets (T.sequence s rec td) rec (executeSequence env exec s rec td)) →
    T.Holds (T.node (.sequence s) rec td) rec (executeNode env exec (.sequence s) rec td)
  part : ∀ s rec td, IsPart T.valid s →
    T.Meets (T.sequence s rec td) rec (executeSequence env exec s rec td) →
    T.Holds (T.sequence s rec td) rec (executePart env exec (some s) rec td)
  group : ∀ g rec td, T.valid (.group g) →
    (∀ o, o = g.setup ∨ o = g.main ∨ o = g.teardown → ∀ td',
      T.Meets (fun w ↦ ∀ s ∈ o, T.sequence s rec td' w) rec (executePart env exec o rec td')) →
    T.Holds (T.node (.group g) rec td) rec (executeNode env exec (.group g) rec td)
  abortable : ∀ s rec, T.Meets (T.loop rec false) rec (executeAbortableSequence env exec s.nodes rec) →
    T.Holds (T.sequence s rec false) rec
      (within (.sequence s) (executeAbortableSequence env exec s.nodes rec))
  teardown : ∀ s rec,
    T.Meets (T.loop rec true) rec (executeTeardownSequence env exec s.nodes rec .CONTINUE) →
    T.Holds (T.sequence s rec true) rec (within (.sequence s)
      (withTeardownPhasesLock env (executeTeardownSequence env exec s.nodes rec .CONTINUE)))
  aborted : ∀ {rec w}, w.Knows rec → T.loop rec false w →
    (w.run.sync.interfere env.schedule).abort = true →
    T.returns rec w .TERMINAL (w.afterShared env Sync.abortIsSet)
  notAborted : ∀ {n rec w}, w.Knows rec → T.loop rec false w →
    (w.run.sync.interfere env.schedule).abort = false →
    let w' := w.afterShared env fun s ↦ ((), s.setStartPending n.isPhaseOrGroup)
    T.returns rec w .CONTINUE w' ∧ T.node n rec false w'
  fullAborted : ∀ {rec w}, w.Knows rec → T.loop rec true w →
    (w.run.sync.interfere env.schedule).fullAbort = true →
    T.returns rec w .TERMINAL (w.afterShared env Sync.fullAbortIsSet)
  notFullAborted : ∀ {n rec w}, w.Knows rec → T.loop rec true w →
    (w.run.sync.interfere env.schedule).fullAbort = false →
    let w' := w.afterShared env Sync.fullAbortIsSet
    T.returns rec w .CONTINUE w' ∧ T.node n rec true w'

variable {T} {env : Env} {exec : PhaseExecutor} (h : T.Sound env exec)

include h

theorem Sound.abortableSequence {ns : List PhaseNode} {rec : Option ℕ}
    (hns : ∀ n ∈ ns, T.Holds (T.node n rec false) rec (executeNode env exec n rec false)) :
    T.Holds (T.loop rec false) rec (executeAbortableSequence env exec ns rec) := by
  induction ns with
  | nil => exact fun w _ _ ↦ h.none
  | cons n ns ih =>
      intro w hw hloop
      have hn := (hns n (List.mem_cons_self ..)).meets (framed_tree.1 n rec false)
      have ih := ih fun m hm ↦ hns m (List.mem_cons_of_mem _ hm)
      simp only [executeAbortableSequence, wp_bind, wp_onRun, wp_shared, wp_ite, wp_pure]
      split
      · rename_i ha
        exact h.aborted hw hloop ha
      · rename_i ha
        obtain ⟨hret, hnode⟩ := h.notAborted (n := n) hw hloop (eq_false_of_ne_true ha)
        have hf : TreeFrame rec w
            (w.afterShared env fun s ↦ ((), s.setStartPending n.isPhaseOrGroup)) := treeFrame_afterShared w
        refine (hn _ (hf.knows hw) hnode).mono ?_ ?_
        · rintro r w₁ ⟨hf₁, hret₁⟩
          have hret₁ := h.andThen hf hf₁ hret hret₁
          have hf₁ := hf.trans hf₁
          rw [moreCritical] at hret₁
          split
          · exact hret₁
          · rename_i hr
            obtain rfl : r = .CONTINUE := not_not.mp hr
            have hstep := ih w₁ (hf₁.knows hw) (h.loop hw hf₁ hloop hret₁)
            have hframe : Within (Framed rec) (executeAbortableSequence env exec ns rec) :=
              framed_abortableSequence fun n _ ↦ framed_tree.1 n
            refine ((hframe.wp w₁).and hstep).mono ?_ ?_
            · exact fun r' w₂ ⟨hf₂, hret₂⟩ ↦ h.andThen hf₁ (hf₂ (hf₁.knows hw)) hret₁ hret₂
            · exact fun e w₂ ⟨hf₂, hraise⟩ ↦ h.andRaise hf₁ (hf₂ (hf₁.knows hw)) hret₁ hraise
        · exact fun e w₁ ⟨hf₁, hraise⟩ ↦ h.andRaise hf hf₁ hret hraise

theorem Sound.teardownSequence {ns : List PhaseNode} {rec : Option ℕ}
    (hns : ∀ n ∈ ns, T.Holds (T.node n rec true) rec (executeNode env exec n rec true)) :
    T.Holds (T.loop rec true) rec (executeTeardownSequence env exec ns rec .CONTINUE) := by
  -- The induction is over the nodes that are left, with the loop begun in `w₀`.
  suffices hrun : ∀ (ret : ExecutorReturn) (w₀ w : World), w₀.Knows rec → T.loop rec true w₀ →
      TreeFrame rec w₀ w → T.returns rec w₀ ret w →
      wp (executeTeardownSequence env exec ns rec ret) (T.returns rec w₀)
        (fun _ ↦ T.raises rec w₀) w from
    fun w hw hloop ↦ hrun .CONTINUE w w hw hloop (.refl rec w) h.none
  induction ns with
  | nil => exact fun ret w₀ w _ _ _ hret ↦ hret
  | cons n ns ih =>
      intro ret w₀ w hw₀ hloop₀ hf hret
      have hw := hf.knows hw₀
      have hloop := h.loop hw₀ hf hloop₀ hret
      have hn := (hns n (List.mem_cons_self ..)).meets (framed_tree.1 n rec true)
      have ih := ih fun m hm ↦ hns m (List.mem_cons_of_mem _ hm)
      have hf₁ : TreeFrame rec w₀ (w.afterShared env Sync.fullAbortIsSet) :=
        hf.trans (treeFrame_afterShared w)
      simp only [executeTeardownSequence, wp_bind, wp_onRun, wp_shared, wp_ite, wp_pure]
      split
      · rename_i ha
        have hstop := h.andThen hf (treeFrame_afterShared w) hret (h.fullAborted hw hloop ha)
        rwa [moreCritical_terminal_right] at hstop
      · rename_i ha
        obtain ⟨hret₁, hnode⟩ := h.notFullAborted (n := n) hw hloop (eq_false_of_ne_true ha)
        have hret₁ := h.andThen hf (treeFrame_afterShared w) hret hret₁
        rw [moreCritical_continue_right] at hret₁
        refine (hn _ (hf₁.knows hw₀) hnode).mono ?_ ?_
        · rintro r w₂ ⟨hf₂, hret₂⟩
          exact ih _ w₀ w₂ hw₀ hloop₀ (hf₁.trans hf₂) (h.andThen hf₁ hf₂ hret₁ hret₂)
        · exact fun e w₂ ⟨hf₂, hraise⟩ ↦ h.andRaise hf₁ hf₂ hret₁ hraise

/-- The property holds of `_execute_node` and `_execute_sequence` on every tree
whose nodes may be met. -/
theorem Sound.tree :
    (∀ n, (∀ m, m = n ∨ m ∈ n.nodesBelow → T.valid m) → ∀ rec td,
      T.Holds (T.node n rec td) rec (executeNode env exec n rec td)) ∧
    ∀ s : PhaseSequence, (∀ m ∈ s.allNodes, T.valid m) → ∀ rec td,
      T.Holds (T.sequence s rec td) rec (executeSequence env exec s rec td) := by
  apply PhaseNode.tree_induction
  case phase => exact fun p hv rec td ↦ h.phase p rec td (hv _ (.inl rfl))
  case checkpoint => exact fun c hv rec td ↦ h.checkpoint c rec td (hv _ (.inl rfl))
  case unhandled => exact fun hv rec td ↦ h.unhandled rec td (hv _ (.inl rfl))
  case sequence =>
    intro s hs hv rec td
    have hs := hs fun m hm ↦ hv m (.inr hm)
    exact h.sequenceNode s rec td (hv _ (.inl rfl)) fun rec ↦
      (hs rec td).meets (framed_tree.2 s rec td)
  case group =>
    rintro ⟨setup, main, teardown, name⟩ hs hm ht hv rec td
    have hbelow (o : Option PhaseSequence) (s : PhaseSequence) (hso : s ∈ o) (m : PhaseNode)
        (hm : m ∈ s.allNodes) : m ∈ allNodesOfPart o := by
      obtain rfl : o = some s := hso
      exact hm
    refine h.group _ rec td (hv _ (.inl rfl)) fun o ho td' ↦ Holds.meets ?_ (framed_executePart o)
    cases o with
    | none => exact fun w _ _ ↦ h.none
    | some s =>
        have hvs (m : PhaseNode) (hm : m ∈ s.allNodes) : T.valid m := by
          refine hv m (.inr ?_)
          have hm := hbelow _ s rfl m hm
          rcases ho with rfl | rfl | rfl <;>
            simp_all [PhaseNode.nodesBelow, PhaseGroup.setup, PhaseGroup.main, PhaseGroup.teardown]
        have hs : T.Holds (T.sequence s rec td') rec (executeSequence env exec s rec td') := by
          rcases ho with rfl | rfl | rfl
          · exact hs s rfl hvs rec td'
          · exact hm s rfl hvs rec td'
          · exact ht s rfl hvs rec td'
        have hpart : IsPart T.valid s := by
          refine ⟨_, hv _ (.inl rfl), ?_⟩
          rcases ho with ho | ho | ho
          · exact .inl ho.symm
          · exact .inr (.inl ho.symm)
          · exact .inr (.inr ho.symm)
        exact fun w hw hp ↦ h.part s rec td' hpart (hs.meets (framed_tree.2 s rec td')) w hw (hp s rfl)
  case nodes =>
    intro kind name ns hns hv rec td
    have hns (td : Bool) (n : PhaseNode) (hn : n ∈ ns) :
        T.Holds (T.node n rec td) rec (executeNode env exec n rec td) :=
      hns n hn (fun m hm ↦ hv m (mem_allNodesOf.mpr ⟨n, hn, hm⟩)) rec td
    cases td with
    | false =>
        exact h.abortable (.mk kind name ns) rec ((h.abortableSequence (hns false)).meets
          (framed_abortableSequence fun n _ ↦ framed_tree.1 n))
    | true =>
        exact h.teardown (.mk kind name ns) rec ((h.teardownSequence (hns true)).meets
          (framed_teardownSequence (fun n _ ↦ framed_tree.1 n) _))

end TreeSpec

end OpenHtf
