import OpenHtf.Assignment
import OpenHtf.TreeInvariant

/-!
# The teardown of a group that was entered

Once the main of a group starts in a subtest that has not failed, every node of
its teardown sequence is visited, once and in order, whatever the main and the
nodes before return.  One call of `abort` at any moment does not change that.
-/

set_option autoImplicit false

namespace OpenHtf

open Act TestExecutor

/-! ## What assigned outcomes leave of the shared state -/

theorem PhaseExecutor.Assigns.kept {exec : PhaseExecutor} {K : Sync → Prop} (h : exec.Assigns K)
    (hK : Sync.Stable K) (env : Env) :
    RunKept env exec fun s s' ↦ K s.sync → K s'.sync where
  executePhase p r s hs := wp_same.mp ((h.executePhase p r s hs).mono
    (fun _ _ hr ↦ hr.1.sync) fun _ _ hf ↦ hf.elim)
  skipPhase p r s hs := wp_same.mp ((h.skipPhase p r s hs).mono
    (fun _ _ hr ↦ hr.sync) fun _ _ hf ↦ hf.elim)
  evaluateCheckpoint c r s hs := wp_same.mp ((h.evaluateCheckpoint c r s hs).mono
    (fun _ _ hr ↦ hr.1.sync) fun _ _ hf ↦ hf.elim)
  skipCheckpoint c r s hs := wp_same.mp ((h.skipCheckpoint c r s hs).mono
    (fun _ _ hr ↦ hr.sync) fun _ _ hf ↦ hf.elim)
  abortIsSet _ hs := hK.interfere _ hs
  fullAbortIsSet _ hs := hK.interfere _ hs
  acquire _ hs := hK.acquire (hK.interfere _ hs)
  release _ hs := hK.release (hK.interfere _ hs)
  enterGroup _ hs := hK.enterGroup (hK.interfere _ hs)
  pending b _ hs := hK.setStartPending b hs
  callUser _ _ hs := hs
  noteStep _ _ hs := hs

theorem PhaseExecutor.Assigns.sync {env : Env} {exec : PhaseExecutor} {K : Sync → Prop}
    (h : exec.Assigns K) (hK : Sync.Stable K) :
    TreeInvariant env exec (fun _ ↦ True) (fun s s' ↦ K s.sync → K s'.sync) (fun w ↦ K w.run.sync)
      fun _ _ _ ↦ True where
  refl _ := id
  kept := h.kept hK env
  same _ _ _ hr := hr
  frame _ _ := id
  event _ _ _ hi := hi
  fail _ _ hi := hi
  node := id
  sequence hat _ := hat
  teardown _ hat _ _ := hat
  branch _ hat := hat
  branched _ _ _ _ hi := hi
  begin _ _ hi := ⟨hi, trivial⟩
  done _ _ _ _ _ hi := hi

/-! ## Visits -/

/-- The visit of a node, if it happens `depth` activities deep. -/
def Event.visitAt (depth : ℕ) : Event → Option (List Frame × PhaseNode × Bool)
  | .visited ctx n inTeardown => if ctx.length = depth then some (ctx, n, inTeardown) else none
  | _ => none

theorem visitAt_eq_none {e : Event} {depth : ℕ} (h : ∀ ctx ∈ e.ctx, depth < ctx.length) :
    e.visitAt depth = none := by
  cases e with
  | visited ctx n td => exact if_neg (Nat.ne_of_gt (h ctx rfl))
  | _ => rfl

/-- The nodes that a sequence visits itself, when it visits all of them. -/
def PhaseSequence.visits (ctx : List Frame) (inTeardown : Bool) (s : PhaseSequence) :
    List (List Frame × PhaseNode × Bool) :=
  s.nodes.map fun n ↦ (.sequence s :: ctx, n, inTeardown)

/-- From the start of its main on, the group comes to its teardown, which runs
as a teardown and visits each of its nodes, and then to its end. -/
def GroupTornDown (ctx : List Frame) (g : PhaseGroup) (l : List Event) : Prop :=
  ∃ main teardown rest, l = main ++ .groupTeardown ctx g true :: (teardown ++ .groupCompleted ctx g :: rest) ∧
    (∀ e ∈ main ++ teardown, ∀ td, e ≠ .groupTeardown ctx g td ∧ e ≠ .groupCompleted ctx g) ∧
    teardown.filterMap (Event.visitAt (ctx.length + 1)) = (g.teardown.map (·.visits ctx true)).getD []

/-- That holds of every group whose main starts in a subtest that has not failed. -/
def GroupsTornDown (l : List Event) : Prop :=
  ∀ ctx g td rest, .groupMain ctx g td false :: rest <:+ l → GroupTornDown ctx g rest

theorem groupsTornDown_cons {e : Event} {l : List Event} :
    GroupsTornDown (e :: l) ↔
      (∀ ctx g td, e = .groupMain ctx g td false → GroupTornDown ctx g l) ∧ GroupsTornDown l := by
  constructor
  · intro h
    refine ⟨?_, fun ctx g td rest hs ↦ h ctx g td rest (hs.trans (List.suffix_cons _ _))⟩
    rintro ctx g td rfl
    exact h ctx g td l List.suffix_rfl
  · rintro ⟨he, hl⟩ ctx g td rest hs
    rcases List.suffix_cons_iff.mp hs with heq | hs
    · obtain ⟨rfl, rfl⟩ := List.cons.inj heq
      exact he ctx g td rfl
    · exact hl ctx g td rest hs

theorem GroupTornDown.append {ctx : List Frame} {g : PhaseGroup} {l : List Event}
    (h : GroupTornDown ctx g l) (l' : List Event) : GroupTornDown ctx g (l ++ l') := by
  obtain ⟨main, teardown, rest, rfl, hnone, hvisits⟩ := h
  exact ⟨main, teardown, rest ++ l', by simp, hnone, hvisits⟩

theorem GroupsTornDown.append {l l' : List Event} (h : GroupsTornDown l) (h' : GroupsTornDown l') :
    GroupsTornDown (l ++ l') := by
  induction l with
  | nil => exact h'
  | cons e l ih =>
      obtain ⟨he, hl⟩ := groupsTornDown_cons.mp h
      rw [List.cons_append, groupsTornDown_cons]
      exact ⟨fun ctx g td heq ↦ (he ctx g td heq).append l', ih hl⟩

theorem groupsTornDown_nil : GroupsTornDown [] := by
  intro ctx g td rest hs
  simp at hs

/-- An event that starts no main has nothing to fear. -/
theorem groupsTornDown_singleton {e : Event} (h : ∀ ctx g td, e ≠ .groupMain ctx g td false) :
    GroupsTornDown [e] :=
  groupsTornDown_cons.mpr ⟨fun ctx g td heq ↦ absurd heq (h ctx g td), groupsTornDown_nil⟩

section Visits

variable {env : Env} {exec : PhaseExecutor} (hexec : exec.Assigns Sync.OneAbort)

include hexec

theorem visits_teardownSequence {ns : List PhaseNode} {rec : Option ℕ} (ret : ExecutorReturn)
    {w : World} (hw : w.Knows rec) (hs : w.run.sync.OneAbort) :
    wp (executeTeardownSequence env exec ns rec ret)
      (fun _ w' ↦ w.events <+: w'.events ∧
        (w.emitted w').filterMap (Event.visitAt w.callstack.length) =
          ns.map fun n ↦ (w.callstack, n, true))
      (fun _ _ ↦ True) w := by
  induction ns generalizing ret w with
  | nil => exact ⟨List.prefix_rfl, by simp⟩
  | cons n ns ih =>
      have hs₀ := Sync.stable_oneAbort.interfere env.schedule hs
      simp only [executeTeardownSequence, wp_bind, wp_onRun, wp_shared, wp_ite, wp_pure,
        Sync.fullAbortIsSet, hs₀.fullAbort, Bool.false_eq_true, if_false]
      set w₀ := w.afterShared env Sync.fullAbortIsSet
      have hw₀ : w₀.Knows rec := hw
      have hkeeps : wp (executeNode env exec n rec true) (fun _ w' ↦ w'.run.sync.OneAbort)
          (fun _ w' ↦ w'.run.sync.OneAbort) w₀ :=
        (hexec.sync Sync.stable_oneAbort).executeNode (fun _ _ ↦ trivial) hw₀ trivial hs₀
      refine ((hkeeps.and ((events_executeNode n rec true).wp w₀)).and
        ((framed_tree.1 n rec true).wp w₀)).mono ?_ fun _ _ _ ↦ trivial
      rintro r w₁ ⟨⟨hs₁, hl⟩, hf⟩
      have hf := hf hw₀
      obtain ⟨l, hl, hctx⟩ := hl hw₀
      refine (ih (moreCritical ret r) (hf.knows hw₀) hs₁).mono ?_ fun _ _ _ ↦ trivial
      rintro - w₂ ⟨hp, hvisits⟩
      have hem : w.emitted w₂ = w₀.emitted w₁ ++ w₁.emitted w₂ := World.emitted_trans hf.events hp
      have hinner : l.filterMap (Event.visitAt w.callstack.length) = [] := by
        rw [List.filterMap_eq_nil_iff]
        intro e he
        exact visitAt_eq_none fun ctx h ↦ (hctx e he ctx h).length_le
      have hstack : w₀.callstack = w.callstack := rfl
      refine ⟨hf.events.trans hp, ?_⟩
      rw [hf.callstack, hstack] at hvisits
      rw [hem, hl, List.filterMap_append, List.filterMap_cons, hinner, hvisits]
      simp [Event.visitAt, hstack]

theorem visits_executePart {o : Option PhaseSequence} {rec : Option ℕ} {w : World}
    (hw : w.Knows rec) (hs : w.run.sync.OneAbort) :
    wp (executePart env exec o rec true)
      (fun _ w' ↦ (w.emitted w').filterMap (Event.visitAt (w.callstack.length + 1)) =
        (o.map (·.visits w.callstack true)).getD [])
      (fun _ _ ↦ True) w := by
  rcases o with _ | ⟨kind, name, ns⟩
  · simp [executePart]
  · simp only [executePart, executeSequence, if_true, wp_reaching, wp_within, wp_withTeardownPhasesLock]
    set s : PhaseSequence := .mk kind name ns
    set w₁ := ((w.addEvent (.reached s true (w.subtestFails rec))).enter (.sequence s)).afterShared env
      Sync.acquireTeardownPhasesLock
    refine (visits_teardownSequence (w := w₁) hexec .CONTINUE hw ?_).mono ?_ fun _ _ _ ↦ trivial
    · exact Sync.stable_oneAbort.acquire (Sync.stable_oneAbort.interfere _ hs)
    · rintro - w₂ ⟨hp, hvisits⟩
      have hem : w.emitted (((w₂.afterShared env Sync.releaseTeardownPhasesLock).setCallstack
            w.callstack).addEvent (.completed s true (w.subtestFails rec))) =
          .reached s true (w.subtestFails rec) ::
            (w₁.emitted w₂ ++ [.completed s true (w.subtestFails rec)]) :=
        World.emitted_between _ (show _ <+: ((w₂.afterShared env Sync.releaseTeardownPhasesLock).setCallstack
          w.callstack).events from hp)
      have hstack : w₁.callstack = .sequence s :: w.callstack := rfl
      rw [hstack, List.length_cons] at hvisits
      refine (congrArg _ hem).trans ?_
      rw [List.filterMap_cons_none rfl, List.filterMap_append, hvisits, List.filterMap_cons_none rfl,
        List.filterMap_nil, List.append_nil]
      rfl

end Visits

/-- What a part of a group says, it says from inside. -/
theorem contexts_executePart {env : Env} {exec : PhaseExecutor} (o : Option PhaseSequence)
    (rec : Option ℕ) (td : Bool) :
    Within (fun w w' ↦ w.Knows rec →
      ∀ e ∈ w.emitted w', ∀ ctx ∈ e.ctx, w.callstack.length < ctx.length)
      (executePart env exec o rec td) := by
  cases o with
  | none => exact fun w _ ↦ by simp [executePart]
  | some s =>
      obtain ⟨x, hx, h⟩ := (@framed_bodies env exec).2 s rec td
      intro w
      rw [← wp_same (P := fun w' ↦ w.Knows rec → ∀ e ∈ w.emitted w', ∀ ctx ∈ e.ctx,
        w.callstack.length < ctx.length), executePart, hx]
      simp only [wp_reaching]
      have hinside {w' : World} (e' : Event) (he' : e'.ctx = none)
          (hf : Framed rec (w.addEvent (.reached s td (w.subtestFails rec))) w')
          (hctx : (w.addEvent (.reached s td (w.subtestFails rec))).Knows rec →
            ∀ e ∈ (w.addEvent (.reached s td (w.subtestFails rec))).emitted w', ∀ ctx ∈ e.ctx,
              .sequence s :: w.callstack <:+ ctx) (hw : w.Knows rec) :
          ∀ e ∈ w.emitted (w'.addEvent e'), ∀ ctx ∈ e.ctx, w.callstack.length < ctx.length := by
        intro e he ctx h
        rw [World.emitted_between e' (hf hw).events] at he
        rcases List.mem_cons.mp he with rfl | he
        · cases h
        rcases List.mem_append.mp he with he | he
        · exact (hctx hw e he ctx h).length_le
        · rw [List.mem_singleton.mp he, he'] at h
          cases h
      refine (((framed_within h).wp _).and ((contexts_within h).wp _)).mono ?_ ?_
      · exact fun _ w' hr ↦ hinside _ rfl hr.1 hr.2
      · exact fun _ w' hr ↦ hinside _ rfl hr.1 hr.2

/-! ## The tree -/

/-- What the execution of a node comes to when `abort` is called once. -/
structure TeardownsRun (w w' : World) : Prop where
  events : w.events <+: w'.events
  sync : w.run.sync.OneAbort → w'.run.sync.OneAbort
  groups : GroupsTornDown (w.emitted w')

section TeardownsRun

variable {w w' w₁ w₂ : World}

theorem TeardownsRun.trans (h : TeardownsRun w w₁) (h' : TeardownsRun w₁ w₂) : TeardownsRun w w₂ :=
  ⟨h.events.trans h'.events, h'.sync ∘ h.sync,
    World.emitted_trans h.events h'.events ▸ h.groups.append h'.groups⟩

/-- The start of a main, and what follows. -/
theorem TeardownsRun.cons {e : Event} (h : TeardownsRun (w.addEvent e) w')
    (he : ∀ ctx g td, e = .groupMain ctx g td false →
      GroupTornDown ctx g ((w.addEvent e).emitted w')) : TeardownsRun w w' := by
  have hp : w.events <+: (w.addEvent e).events := List.prefix_append _ _
  refine ⟨hp.trans h.events, h.sync, ?_⟩
  rw [World.emitted_trans hp h.events, World.emitted_addEvent, List.singleton_append,
    groupsTornDown_cons]
  exact ⟨he, h.groups⟩

/-- A step that says nothing. -/
theorem teardownsRun_quiet (hevents : w'.events = w.events)
    (hsync : w.run.sync.OneAbort → w'.run.sync.OneAbort) : TeardownsRun w w' := by
  refine ⟨hevents ▸ List.prefix_rfl, hsync, ?_⟩
  rw [World.emitted_of_eq (by rw [hevents, List.append_nil])]
  exact groupsTornDown_nil

theorem teardownsRun_setCallstack (c : List Frame) : TeardownsRun w (w.setCallstack c) :=
  teardownsRun_quiet rfl id

theorem teardownsRun_addEvent {e : Event} (h : ∀ ctx g td, e ≠ .groupMain ctx g td false) :
    TeardownsRun w (w.addEvent e) := by
  refine ⟨List.prefix_append _ _, id, ?_⟩
  rw [World.emitted_addEvent]
  exact groupsTornDown_singleton h

theorem teardownsRun_afterShared {α : Type} {env : Env} {op : Sync → α × Sync}
    (hop : ∀ s : Sync, s.OneAbort → (op (s.interfere env.schedule)).2.OneAbort) :
    TeardownsRun w (w.afterShared env op) := teardownsRun_quiet rfl (hop _)

theorem teardownsRun_concluded {o : PhaseExecutionOutcome} {unit : String} {rec : Option ℕ} :
    TeardownsRun w (w.concluded o unit rec) := by
  unfold World.concluded
  cases rec with
  | none => split_ifs <;> exact teardownsRun_quiet rfl id
  | some i =>
      split_ifs
      · exact teardownsRun_quiet rfl id
      · exact teardownsRun_quiet rfl id
      · have hset : TeardownsRun w (w.setSubtestOutcome i .FAIL) := teardownsRun_quiet rfl id
        exact hset.trans (teardownsRun_addEvent (by simp))
      · exact teardownsRun_quiet rfl id

theorem LeafRun.teardownsRun {n : PhaseNode} {unit : String} {rec : Option ℕ} {td : Bool}
    {r : ExecutorReturn} (h : LeafRun Sync.OneAbort n unit rec td w r w') : TeardownsRun w w' := by
  cases h with
  | skipped s first next hs htd hfail =>
      have hrun : TeardownsRun w (w.setRun s) := teardownsRun_quiet rfl fun _ ↦ hs.sync
      exact hrun.trans (teardownsRun_addEvent (by simp))
  | ended o s hs hfail =>
      have hrun : TeardownsRun w ((w.addEvent (.executing w.callstack n td)).setRun s) :=
        (teardownsRun_addEvent (by simp)).trans (teardownsRun_quiet rfl fun _ ↦ hs.sync)
      exact (hrun.trans (teardownsRun_addEvent (by simp))).trans teardownsRun_concluded

end TeardownsRun

/-- Nothing is raised, and groups are torn down. -/
def teardownsRunSpec : TreeSpec where
  valid _ := True
  node _ _ _ w := w.run.sync.OneAbort
  loop _ _ w := w.run.sync.OneAbort
  sequence _ _ _ w := w.run.sync.OneAbort
  returns _ w _ w' := TeardownsRun w w'
  raises _ _ _ := False

section Tree

variable {env : Env} {exec : PhaseExecutor}

theorem teardownsRun_visiting {rec : Option ℕ} {n : PhaseNode} {td : Bool} {x : Executor ExecutorReturn}
    (h : ∀ w, w.Knows rec → w.run.sync.OneAbort →
      wp x (fun _ ↦ TeardownsRun w) (fun _ _ ↦ False) w) :
    teardownsRunSpec.Holds (fun w ↦ w.run.sync.OneAbort) rec (visiting n td x) := by
  intro w hw hs
  simp only [wp_visiting]
  refine wp.mono (h _ ?_ ?_) (fun r w' hr ↦ ?_) fun _ _ hf ↦ hf
  · exact hw
  · exact hs
  · have hvisit : TeardownsRun w (w.addEvent (.visited w.callstack n td)) := teardownsRun_addEvent (by simp)
    exact ((hvisit.trans (teardownsRun_setCallstack _)).trans hr).trans (teardownsRun_setCallstack _)

theorem teardownsRun_reaching {rec : Option ℕ} {s : PhaseSequence} {td : Bool}
    {x : Executor ExecutorReturn} {w : World}
    (h : ∀ w, w.Knows rec → w.run.sync.OneAbort →
      wp x (fun _ ↦ TeardownsRun w) (fun _ _ ↦ False) w) (hw : w.Knows rec) (hs : w.run.sync.OneAbort) :
    wp (reaching s rec td x) (fun _ ↦ TeardownsRun w) (fun _ _ ↦ False) w := by
  simp only [wp_reaching]
  refine wp.mono (h _ ?_ ?_) (fun r w' hr ↦ ?_) fun _ _ hf ↦ hf
  · exact hw
  · exact hs
  · have hreach : TeardownsRun w (w.addEvent (.reached s td (w.subtestFails rec))) :=
      teardownsRun_addEvent (by simp)
    exact (hreach.trans hr).trans (teardownsRun_addEvent (by simp))

theorem teardownsRun_executePhaseGroup (hexec : exec.Assigns Sync.OneAbort)
    {setup main teardown : Option PhaseSequence} {name : Option String} {rec : Option ℕ} {td : Bool}
    (hpart : ∀ o, o = setup ∨ o = main ∨ o = teardown → ∀ td',
      teardownsRunSpec.Meets (fun w ↦ w.run.sync.OneAbort) rec (executePart env exec o rec td')) {w : World}
    (hw : w.Knows rec) (hs : w.run.sync.OneAbort) :
    wp (executePhaseGroup (.mk setup main teardown name) rec td (executePart env exec setup rec td)
      (executePart env exec main rec td) (executePart env exec teardown rec))
      (fun _ ↦ TeardownsRun w) (fun _ _ ↦ False) w := by
  simp only [wp_executePhaseGroup]
  refine (hpart setup (.inl rfl) td w hw hs).mono ?_ fun _ _ hf ↦ hf.2
  rintro r w₁ ⟨hf₁, h₁⟩
  split_ifs
  · exact h₁
  have hskip := skipsTeardown_eq_false (g := .mk setup main teardown name) hw hf₁
  generalize w.skipsTeardown (.mk setup main teardown name) rec w₁ = skip at hskip ⊢
  generalize hg : PhaseGroup.mk setup main teardown name = g at *
  set w₁' := w₁.addEvent (.groupMain w₁.callstack g td (w₁.subtestFails rec))
  have hw₁ : w₁'.Knows rec := hf₁.knows hw
  have hs₁ : w₁'.run.sync.OneAbort := h₁.sync hs
  refine ((hpart main (.inr (.inl rfl)) td w₁' hw₁ hs₁).and
    ((contexts_executePart main rec td).wp w₁')).mono ?_ fun _ _ hf ↦ hf.1.2
  rintro r' w₂ ⟨⟨hf₂, h₂⟩, hctx₂⟩
  have hctx₂ := hctx₂ hw₁
  set w₂' := w₂.addEvent (.groupTeardown w₂.callstack g (!skip))
  have hw₂ : w₂'.Knows rec := hf₂.knows hw₁
  have hs₂ : w₂'.run.sync.OneAbort := h₂.sync hs₁
  have hvisits : skip = false → wp (executePart env exec teardown rec (!skip))
      (fun _ w' ↦ (w₂'.emitted w').filterMap (Event.visitAt (w₂'.callstack.length + 1)) =
        (teardown.map (·.visits w₂'.callstack true)).getD []) (fun _ _ ↦ True) w₂' := by
    rintro rfl
    exact visits_executePart hexec hw₂ hs₂
  refine (((hpart teardown (.inr (.inr rfl)) (!skip) w₂' hw₂ hs₂).and
    ((contexts_executePart teardown rec (!skip)).wp w₂')).and
    (wp.imp hvisits)).mono ?_ fun _ _ hf ↦ hf.1.1.2
  rintro r'' w₃ ⟨⟨⟨hf₃, h₃⟩, hctx₃⟩, hvisits⟩
  have hctx₃ := hctx₃ hw₂
  have htail : TeardownsRun w₁' (w₃.addEvent (.groupCompleted w₃.callstack g)) :=
    ((h₂.trans (teardownsRun_addEvent (by simp))).trans h₃).trans (teardownsRun_addEvent (by simp))
  refine h₁.trans (htail.cons fun ctx g' td' heq ↦ ?_)
  obtain ⟨rfl, rfl, rfl, hfail⟩ := Event.groupMain.inj heq
  obtain rfl := hskip hfail
  have hstack₂ : w₂.callstack = w₁.callstack := hf₂.callstack
  have hstack₃ : w₃.callstack = w₁.callstack := hf₃.callstack.trans hstack₂
  have hem : w₁'.emitted (w₃.addEvent (.groupCompleted w₃.callstack g)) = w₁'.emitted w₂ ++
      .groupTeardown w₂.callstack g true :: (w₂'.emitted w₃ ++ [.groupCompleted w₃.callstack g]) := by
    have hp : w₂.events <+: (w₃.addEvent (.groupCompleted w₃.callstack g)).events :=
      ((List.prefix_append _ _).trans h₃.events).trans (List.prefix_append _ _)
    rw [World.emitted_trans h₂.events hp, World.emitted_between _ h₃.events]
    rfl
  refine ⟨w₁'.emitted w₂, w₂'.emitted w₃, [], hem.trans (by rw [hstack₂, hstack₃]), fun e he td'' ↦ ?_, ?_⟩
  · have hctx : ∀ ctx ∈ e.ctx, w₁.callstack.length < ctx.length := by
      rcases List.mem_append.mp he with he | he
      · exact hctx₂ e he
      · intro ctx h
        have := hctx₃ e he ctx h
        rwa [show w₂'.callstack = w₁.callstack from hstack₂] at this
    constructor <;> rintro rfl
    · exact Nat.lt_irrefl _ (hctx _ rfl)
    · exact Nat.lt_irrefl _ (hctx _ rfl)
  · have := hvisits rfl
    rw [show w₂'.callstack = w₁.callstack from hstack₂] at this
    subst hg
    exact this

theorem teardownsRun_sound (hexec : exec.Assigns Sync.OneAbort) (henv : env.RunsOn) :
    teardownsRunSpec.Sound env exec where
  none := teardownsRun_quiet rfl id
  andThen _ _ h h' := h.trans h'
  andRaise _ _ _ h := h
  loop _ _ hs h := h.sync hs
  phase p rec td _ := teardownsRun_visiting fun w _ hs ↦
    (executeLeaf_spec Sync.stable_oneAbort (hexec.skipPhase p)
      (hexec.run Sync.stable_oneAbort henv p) hs).mono (fun _ _ hr ↦ hr.teardownsRun) fun _ _ hf ↦ hf
  checkpoint c rec td _ := teardownsRun_visiting fun w _ hs ↦
    (executeLeaf_spec Sync.stable_oneAbort (hexec.skipCheckpoint c)
      (hexec.evaluateCheckpoint c) hs).mono (fun _ _ hr ↦ hr.teardownsRun) fun _ _ hf ↦ hf
  unhandled rec td _ := teardownsRun_visiting fun w _ _ ↦ teardownsRun_quiet rfl id
  sequenceNode s rec td _ hseq := by
    have hseq (rec : Option ℕ) (w : World) (hw : w.Knows rec) (hs : w.run.sync.OneAbort) :
        wp (executeSequence env exec s rec td) (fun _ ↦ TeardownsRun w) (fun _ _ ↦ False) w :=
      (hseq rec w hw hs).mono (fun _ _ hr ↦ hr.2) fun _ _ hf ↦ hf.2
    refine teardownsRun_visiting fun w hw hs ↦ teardownsRun_reaching (fun w hw hs ↦ ?_) hw hs
    unfold executeSequenceNode
    cases s.kind with
    | plain => exact hseq rec w hw hs
    | subtest =>
        dsimp only
        rw [wp_executeSubtest hw]
        refine wp.mono (hseq _ _ knows_beginSubtest ?_) (fun r w' hr ↦ ?_) fun _ _ hf ↦ hf
        · exact hs
        · have hbegin : TeardownsRun w (w.beginSubtest s (w.subtestFails rec)) := teardownsRun_quiet rfl id
          have hend (w' : World) (i : ℕ) (b : Bool) : TeardownsRun w' (w'.endSubtest i b r) := by
            have hrecord := teardownsRun_addEvent (w := w')
              (e := .subtestRecorded i b r (w'.closedRecord i r)) (by simp)
            exact ⟨hrecord.events, id, hrecord.groups⟩
          exact (((hbegin.trans (teardownsRun_setCallstack _)).trans hr).trans
            (teardownsRun_setCallstack _)).trans (hend _ _ _)
    | branch c =>
        have hevaluating : TeardownsRun w (w.evaluating s td) := by
          have hmoment : TeardownsRun w (w.setRun (RunState.addStep
              (.branchEvaluated s.name w.run.moment w.inBranch) { w.run with moment := w.run.moment + 1 })) :=
            teardownsRun_quiet rfl id
          exact hmoment.trans (teardownsRun_addEvent (by simp))
        have hbranch (w' : World) (taken : Bool) :
            TeardownsRun w' (w'.addBranch s c taken w.run.moment) := teardownsRun_quiet rfl id
        simp only [wp_executePhaseBranch]
        split_ifs
        · exact teardownsRun_quiet rfl id
        · refine wp.mono (hseq _ _ ?_ ?_) (fun r w' hr ↦ ?_) fun _ _ hf ↦ hf
          · exact hw
          · exact hs
          · exact (((hevaluating.trans (teardownsRun_setCallstack _)).trans hr).trans
              (teardownsRun_setCallstack _)).trans (hbranch _ _)
        · exact hevaluating.trans (hbranch _ _)
  part s rec td _ hseq w hw hs := by
    have hseq (w : World) (hw : w.Knows rec) (hs : w.run.sync.OneAbort) :
        wp (executeSequence env exec s rec td) (fun _ ↦ TeardownsRun w) (fun _ _ ↦ False) w :=
      (hseq w hw hs).mono (fun _ _ hr ↦ hr.2) fun _ _ hf ↦ hf.2
    exact teardownsRun_reaching hseq hw hs
  group g rec td _ hpart := by
    obtain ⟨setup, main, teardown, name⟩ := g
    refine teardownsRun_visiting fun w hw hs ↦ ?_
    have henter : TeardownsRun w (w.afterShared env Sync.enterGroup) :=
      teardownsRun_afterShared fun s hs ↦ Sync.stable_oneAbort.enterGroup (Sync.stable_oneAbort.interfere _ hs)
    simp only [wp_enteringGroup]
    refine (teardownsRun_executePhaseGroup hexec (w := w.afterShared env Sync.enterGroup) ?_ ?_ ?_).mono ?_
      fun _ _ hf ↦ hf
    · exact fun o ho td' w hw hs ↦ hpart o ho td' w hw fun _ _ ↦ hs
    · exact hw
    · exact henter.sync hs
    · exact fun _ _ hr ↦ henter.trans hr
  abortable s rec h := by
    intro w hw hs
    simp only [wp_within]
    refine wp.mono (h _ ?_ ?_) (fun r w' hr ↦ ?_) fun _ _ hf ↦ hf.2
    · exact hw
    · exact hs
    · exact ((teardownsRun_setCallstack _).trans hr.2).trans (teardownsRun_setCallstack _)
  teardown s rec h := by
    intro w hw hs
    simp only [wp_within, wp_withTeardownPhasesLock]
    refine wp.mono (h _ ?_ ?_) (fun r w' hr ↦ ?_) fun _ _ hf ↦ hf.2
    · exact hw
    · exact Sync.stable_oneAbort.acquire (Sync.stable_oneAbort.interfere _ hs)
    · have hacquire : TeardownsRun (w.enter (.sequence s))
          ((w.enter (.sequence s)).afterShared env Sync.acquireTeardownPhasesLock) :=
        teardownsRun_afterShared fun s hs ↦
          Sync.stable_oneAbort.acquire (Sync.stable_oneAbort.interfere _ hs)
      have hrelease : TeardownsRun w' (w'.afterShared env Sync.releaseTeardownPhasesLock) :=
        teardownsRun_afterShared fun s hs ↦
          Sync.stable_oneAbort.release (Sync.stable_oneAbort.interfere _ hs)
      exact ((((teardownsRun_setCallstack _).trans hacquire).trans hr.2).trans hrelease).trans
        (teardownsRun_setCallstack _)
  aborted _ _ _ := teardownsRun_afterShared fun _ hs ↦ Sync.stable_oneAbort.interfere _ hs
  notAborted _ hs _ :=
    ⟨teardownsRun_afterShared fun _ hs ↦
        Sync.stable_oneAbort.setStartPending _ (Sync.stable_oneAbort.interfere _ hs),
      Sync.stable_oneAbort.setStartPending _ (Sync.stable_oneAbort.interfere _ hs)⟩
  fullAborted _ hs ha := by
    have := (Sync.stable_oneAbort.interfere env.schedule hs).fullAbort
    simp [this] at ha
  notFullAborted _ hs _ :=
    ⟨teardownsRun_afterShared fun _ hs ↦ Sync.stable_oneAbort.interfere _ hs,
      Sync.stable_oneAbort.interfere _ hs⟩

end Tree

end OpenHtf
