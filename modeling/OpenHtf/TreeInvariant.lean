import OpenHtf.TreeRules

/-!
# Invariants of the execution of a tree

An invariant `I` of the world is kept by the execution of a node, whether it
returns or raises, when it is kept by each single thing that the executors of
the tree do.  `At` says where the executor stands: it holds of the current
subtest, of `in_teardown` and of the enclosing activities whenever a node or a
sequence is executed.
-/

set_option autoImplicit false

namespace OpenHtf

open Act TestExecutor

/-- The phase executor, and the test executor outside the records it makes,
change the run only as `R` says. -/
structure RunKept (env : Env) (exec : PhaseExecutor) (R : RunState → RunState → Prop) : Prop where
  executePhase : ∀ p r, Within R (exec.executePhase p r)
  skipPhase : ∀ p r, Within R (exec.skipPhase p r)
  evaluateCheckpoint : ∀ c r, Within R (exec.evaluateCheckpoint c r)
  skipCheckpoint : ∀ c r, Within R (exec.skipCheckpoint c r)
  abortIsSet : Within R (shared env Sync.abortIsSet)
  fullAbortIsSet : Within R (shared env Sync.fullAbortIsSet)
  acquire : Within R (shared env Sync.acquireTeardownPhasesLock)
  release : Within R (shared env Sync.releaseTeardownPhasesLock)
  enterGroup : Within R (shared env Sync.enterGroup)
  pending : ∀ b, Within R (noteThread (Sync.setStartPending b))
  callUser : ∀ {α : Type} (f : ℕ → α), Within R (callUser f)
  noteStep : ∀ x, Within R (noteStep x)

theorem runKept_any (env : Env) (exec : PhaseExecutor) : RunKept env exec fun _ _ ↦ True where
  executePhase _ _ _ := trivial
  skipPhase _ _ _ := trivial
  evaluateCheckpoint _ _ _ := trivial
  skipCheckpoint _ _ _ := trivial
  abortIsSet _ := trivial
  fullAbortIsSet _ := trivial
  acquire _ := trivial
  release _ := trivial
  enterGroup _ := trivial
  pending _ _ := trivial
  callUser _ _ := trivial
  noteStep _ _ := trivial

/-- The events of the executors, where nothing else happens with them. -/
inductive Emits (valid : PhaseNode → Prop) (rec : Option ℕ) (td : Bool) (w : World) : Event → Prop
  | visited (n : PhaseNode) (hv : valid n) : Emits valid rec td w (.visited w.callstack n td)
  | executing (n : PhaseNode) (hv : valid n) (h : td = true ∨ w.subtestFails rec = false) :
      Emits valid rec td w (.executing w.callstack n td)
  | ended (n : PhaseNode) (o : PhaseExecutionOutcome) (hv : valid n)
      (h : td = true ∨ w.subtestFails rec = false) :
      Emits valid rec td w (.ended w.callstack n td o)
  | skipped (n : PhaseNode) (first next : ℕ) (hv : valid n) (htd : td = false)
      (h : w.subtestFails rec = true) :
      Emits valid rec td w (.skipped w.callstack n first next)
  | reached (s : PhaseSequence) : Emits valid rec td w (.reached s td (w.subtestFails rec))
  | abandoned (s : PhaseSequence) (failed : Bool) : Emits valid rec td w (.abandoned s td failed)
  | completed (s : PhaseSequence) (failed : Bool)
      (h : s.kind = .plain ∨ IsPart valid s ∨ (s.kind ≠ .subtest ∧ td = false ∧ failed = true)) :
      Emits valid rec td w (.completed s td failed)
  | groupMain (g : PhaseGroup) :
      Emits valid rec td w (.groupMain w.callstack g td (w.subtestFails rec))
  | groupTeardown (g : PhaseGroup) (b : Bool) : Emits valid rec td w (.groupTeardown w.callstack g b)
  | groupCompleted (g : PhaseGroup) : Emits valid rec td w (.groupCompleted w.callstack g)

/-- The world inside the activity `f`. -/
def World.enter (f : Frame) (w : World) : World := w.setCallstack (f :: w.callstack)

structure TreeInvariant (env : Env) (exec : PhaseExecutor) (valid : PhaseNode → Prop)
    (R : RunState → RunState → Prop) (I : World → Prop) (At : Option ℕ → Bool → World → Prop) :
    Prop where
  refl : ∀ s, R s s
  kept : RunKept env exec R
  same : ∀ {w w'}, w'.events = w.events → w'.subtestRecords = w.subtestRecords →
    w'.subtestsMade = w.subtestsMade → R w.run w'.run → I w → I w'
  frame : ∀ {rec td w w'}, w.Knows rec → TreeFrame rec w w' → At rec td w → At rec td w'
  event : ∀ {rec td w e}, w.Knows rec → At rec td w → Emits valid rec td w e → I w →
    I (w.addEvent e)
  fail : ∀ {i td w}, w.Knows (some i) → At (some i) td w → I w →
    I ((w.setSubtestOutcome i .FAIL).addEvent (.subtestFailed i))
  node : ∀ {rec td w}, At rec td w → At rec td (w.enter (.node td))
  sequence : ∀ {rec td w s}, At rec td w →
    (s.kind = .plain ∨ IsPart valid s ∨ (s.kind = .subtest ∧ ∃ i, rec = some i) ∨
      ∃ c store rest, s.kind = .branch c ∧ w.callstack = .branch c store :: rest ∧
        c.check store = true) →
    At rec td (w.enter (.sequence s))
  teardown : ∀ {rec td w g failed skip}, g.teardown.isSome = true → At rec td w →
    .groupMain w.callstack g td failed ∈ w.events → (failed = false → skip = false) →
    At rec (!skip) w
  branch : ∀ {rec td w c store}, c.check store = true → At rec td w →
    At rec td (w.enter (.branch c store))
  branched : ∀ {rec td w s c taken millis failed}, w.Knows rec → At rec td w → s.kind = .branch c →
    td = true ∨ failed = false → I w →
    I ((w.addBranch s c taken millis).addEvent (.completed s td failed))
  begin : ∀ {rec td w s}, w.Knows rec → At rec td w → I w →
    I (w.beginSubtest s (w.subtestFails rec)) ∧
      At (some w.subtestsMade) td
        ((w.beginSubtest s (w.subtestFails rec)).enter (.subtest w.subtestsMade))
  done : ∀ {rec td w w' s ret}, w.Knows rec → At rec td w → I w → s.kind = .subtest →
    TreeFrame (some w.subtestsMade)
      ((w.beginSubtest s (w.subtestFails rec)).enter (.subtest w.subtestsMade)) w' → I w' →
    I (((w'.setCallstack w.callstack).endSubtest w.subtestsMade (w.subtestFails rec) ret).addEvent
      (.completed s td (w.subtestFails rec)))


namespace TreeInvariant

variable {env : Env} {exec : PhaseExecutor} {valid : PhaseNode → Prop}
  {R : RunState → RunState → Prop} {I : World → Prop} {At : Option ℕ → Bool → World → Prop}

/-- The property of the executors that `I` is kept. -/
def spec (valid : PhaseNode → Prop) (I : World → Prop) (At : Option ℕ → Bool → World → Prop) :
    TreeSpec where
  valid := valid
  node _ rec td w := At rec td w
  loop rec td w := At rec td w
  sequence s rec td w := At rec td w ∧ At rec td (w.enter (.sequence s))
  returns _ w _ w' := I w → I w'
  raises _ w w' := I w → I w'

theorem holds {P : World → Prop} {rec : Option ℕ} {x : Executor ExecutorReturn}
    (h : ∀ w, w.Knows rec → P w → I w → wp x (fun _ ↦ I) (fun _ ↦ I) w) :
    (spec valid I At).Holds P rec x :=
  fun w hw hp ↦ wp_same.mpr fun hi ↦ wp_same.mp (h w hw hp hi)

theorem of_meets {P : World → Prop} {rec : Option ℕ} {x : Executor ExecutorReturn}
    (h : (spec valid I At).Meets P rec x) {w : World} (hw : w.Knows rec) (hp : P w) (hi : I w) :
    wp x (fun _ w' ↦ TreeFrame rec w w' ∧ I w') (fun _ w' ↦ TreeFrame rec w w' ∧ I w') w :=
  (h w hw hp).mono (fun _ _ hr ↦ ⟨hr.1, hr.2 hi⟩) fun _ _ hr ↦ ⟨hr.1, hr.2 hi⟩

variable (h : TreeInvariant env exec valid R I At)

include h

theorem setCallstack {w : World} (c : List Frame) (hi : I w) : I (w.setCallstack c) :=
  h.same (w := w) rfl rfl rfl (h.refl _) hi

/-- What a statement of the phase executor keeps. -/
theorem onRun {α : Type} {x : Exec α} (hx : Within R x) {w : World} (hi : I w) :
    wp x (fun _ s ↦ I (w.setRun s)) (fun _ s ↦ I (w.setRun s)) w.run :=
  wp_same.mpr (h.same (w := w) rfl rfl rfl (hx w.run) hi)

theorem afterShared {α : Type} {op : Sync → α × Sync} (hop : Within R (shared env op)) {w : World}
    (hi : I w) : I (w.afterShared env op) :=
  h.same (w := w) rfl rfl rfl (hop w.run) hi

theorem visiting {rec : Option ℕ} {n : PhaseNode} (hv : valid n) {td : Bool}
    {x : Executor ExecutorReturn} (hx : ∀ w, w.Knows rec → At rec td w → I w → wp x (fun _ ↦ I) (fun _ ↦ I) w) :
    (spec valid I At).Holds (At rec td) rec (visiting n td x) := by
  refine holds fun w hw hat hi ↦ ?_
  simp only [wp_visiting]
  have hf : TreeFrame rec w (w.addEvent (.visited w.callstack n td)) :=
    treeFrame_addEvent (by simp [Event.ctx]) (by simp)
  refine wp.mono (hx _ ?_ ?_ ?_) (fun _ _ hi ↦ ?_) fun _ _ hi ↦ ?_
  · exact hw
  · exact h.node (h.frame hw hf hat)
  · exact h.setCallstack _ (h.event hw hat (.visited n hv) hi)
  · exact h.setCallstack _ hi
  · exact h.setCallstack _ hi

theorem conclude {rec : Option ℕ} {td : Bool} (o : PhaseExecutionOutcome) (unit : String) {w : World}
    (hw : w.Knows rec) (hat : At rec td w) (hi : I w) :
    wp (TestExecutor.conclude o unit rec) (fun _ ↦ I) (fun _ ↦ I) w := by
  simp only [TestExecutor.conclude, wp_ite]
  split_ifs
  · simp only [wp_bind, wp_modify, wp_pure]
    split
    · exact hi
    · exact h.same (w := w) rfl rfl rfl (h.refl _) hi
  · cases rec with
    | none => exact hi
    | some i => exact h.fail hw hat hi
  · exact hi

theorem executeLeaf {n : PhaseNode} {unit : String} {records : TestRecord → ℕ}
    {skip : Option SubtestRecord → Exec Unit}
    {run : Option SubtestRecord → Exec PhaseExecutionOutcome} {rec : Option ℕ} {td : Bool}
    (hv : valid n) (hskip : ∀ r, Within R (skip r))
    (hrun : ∀ r w, I w → wp (run r) (fun _ s ↦ I (w.setRun s)) (fun _ s ↦ I (w.setRun s)) w.run)
    {w : World} (hw : w.Knows rec) (hat : At rec td w) (hi : I w) :
    wp (TestExecutor.executeLeaf n unit records skip run rec td) (fun _ ↦ I) (fun _ ↦ I) w := by
  simp only [TestExecutor.executeLeaf, subtestRecord, autoSkips, wp_bind, wp_gets, wp_ite, wp_onRun,
    wp_noteEvent, wp_pure, World.setRun_setRun, World.setRun_callstack]
  split
  · rename_i hskips
    obtain ⟨htd, hfail⟩ := Bool.and_eq_true_iff.mp hskips
    refine (h.onRun (h.kept.pending false) hi).mono ?_ fun _ _ hi ↦ hi
    intro _ s hi
    refine (h.onRun (hskip _) hi).mono ?_ fun _ _ hi ↦ hi
    intro _ s' hi
    exact h.event (w := w.setRun s') hw (h.frame hw (treeFrame_setRun s' w) hat)
      (.skipped n _ _ hv (by simpa using htd) hfail) hi
  · rename_i hskips
    have hguard : td = true ∨ w.subtestFails rec = false := by
      cases td <;> simp_all
    have hi₁ := h.event hw hat (.executing n hv hguard) hi
    have hf₁ : TreeFrame rec w (w.addEvent (.executing w.callstack n td)) :=
      treeFrame_addEvent (by simp [Event.ctx]) (by simp)
    refine (hrun _ _ hi₁).mono ?_ fun _ _ hi ↦ hi
    intro o s hi₂
    have hf₂ : TreeFrame rec w ((w.addEvent (.executing w.callstack n td)).setRun s) :=
      hf₁.trans (treeFrame_setRun s _)
    have hi₃ := h.event (hf₂.knows hw) (h.frame hw hf₂ hat) (.ended n o hv hguard) hi₂
    have hf₃ := hf₂.trans (treeFrame_addEvent (e := .ended w.callstack n td o) (by simp [Event.ctx])
      (by simp))
    exact h.conclude o unit (hf₃.knows hw) (h.frame hw hf₃ hat) hi₃

theorem executePhase {p : PhaseDescriptor} {rec : Option ℕ} {td : Bool} {w : World}
    (hv : valid (.phase p)) (hw : w.Knows rec) (hat : At rec td w) (hi : I w) :
    wp (TestExecutor.executePhase env exec p rec td) (fun _ ↦ I) (fun _ ↦ I) w := by
  refine h.executeLeaf hv (h.kept.skipPhase p) (fun r w hi ↦ ?_) hw hat hi
  rw [wp_bind]
  refine (h.onRun (h.kept.executePhase p r) hi).mono (fun o s hi ↦ ?_) fun _ _ hi ↦ hi
  rw [wp_bind]
  refine (h.onRun (h.kept.pending false) hi).mono (fun _ s' hi ↦ ?_) fun _ _ hi ↦ hi
  simp only [stopOnFirstFailure, wp_ite]
  split
  · simp only [wp_bind, wp_gets]
    refine (h.onRun (h.kept.noteStep _) hi).mono (fun _ s'' hi ↦ ?_) fun _ _ hi ↦ hi
    split <;> exact hi
  · exact hi

theorem evaluating {s : PhaseSequence} {rec : Option ℕ} {td : Bool} {w : World}
    (hv : valid (.sequence s)) (hw : w.Knows rec)
    (hat : At rec td w) (hguard : td = true ∨ w.subtestFails rec = false) (hi : I w) :
    I (w.evaluating s td) := by
  let s₁ : RunState := { w.run with moment := w.run.moment + 1 }
  let s₂ := s₁.addStep (.branchEvaluated s.name w.run.moment w.inBranch)
  have hi₁ : I (w.setRun s₁) := h.same (w := w) rfl rfl rfl (h.kept.callUser (fun n ↦ n) w.run) hi
  have hi₂ : I (w.setRun s₂) := h.same (w := w.setRun s₁) rfl rfl rfl (h.kept.noteStep _ s₁) hi₁
  have hf : TreeFrame rec w (w.setRun s₂) := treeFrame_setRun s₂ w
  exact h.event (hf.knows hw) (h.frame hw hf hat) (.executing (.sequence s) hv hguard) hi₂

/-- `_execute_node` of a sequence, from where it is reached. -/
theorem executeSequenceNode {s : PhaseSequence} {rec : Option ℕ} {td : Bool}
    (hv : valid (.sequence s)) (hseq : ∀ rec, (spec valid I At).Meets ((spec valid I At).sequence s rec td) rec
      (executeSequence env exec s rec td)) {w : World}
    (hw : w.Knows rec) (hat : At rec td w) (hi : I w) :
    wp (executeSequenceNode s rec td fun rec ↦ executeSequence env exec s rec td)
      (fun _ w' ↦ I (w'.addEvent (.completed s td (w.subtestFails rec))))
      (fun _ w' ↦ I (w'.addEvent (.abandoned s td (w.subtestFails rec)))) w := by
  have hraise {w' : World} (hf : TreeFrame rec w w') (hi : I w') :
      I (w'.addEvent (.abandoned s td (w.subtestFails rec))) :=
    h.event (hf.knows hw) (h.frame hw hf hat) (.abandoned s _) hi
  unfold TestExecutor.executeSequenceNode
  cases hk : s.kind with
  | plain =>
      refine (of_meets (hseq rec) hw ⟨hat, h.sequence hat (.inl hk)⟩ hi).mono ?_ ?_
      · rintro _ w' ⟨hf, hi⟩
        exact h.event (hf.knows hw) (h.frame hw hf hat) (.completed s _ (.inl hk)) hi
      · exact fun _ w' ⟨hf, hi⟩ ↦ hraise hf hi
  | subtest =>
      dsimp only
      rw [wp_executeSubtest hw]
      obtain ⟨hib, hatb⟩ := h.begin (s := s) hw hat hi
      refine (of_meets (hseq _) knows_beginSubtest ⟨hatb, h.sequence hatb ?_⟩ (h.setCallstack _ hib)).mono ?_ ?_
      · exact .inr (.inr (.inl ⟨hk, _, rfl⟩))
      · rintro ret w' ⟨hf, hi'⟩
        exact h.done hw hat hi hk hf hi'
      · rintro e w' ⟨hf, hi'⟩
        exact hraise (TreeFrame.ofSubtest hf) (h.setCallstack _ hi')
  | branch c =>
      simp only [wp_executePhaseBranch]
      split_ifs with hskip hcheck
      · obtain ⟨htd, hfail⟩ := Bool.and_eq_true_iff.mp hskip
        exact h.event hw hat (.completed s _ (.inr (.inr ⟨by simp [hk], by simpa using htd, hfail⟩))) hi
      all_goals
        have hguard : td = true ∨ w.subtestFails rec = false := by cases td <;> simp_all
        have hf₁ : TreeFrame rec w (w.evaluating s td) := treeFrame_evaluating
        have hi₁ : I (w.evaluating s td) := h.evaluating hv hw hat hguard hi
      · have hat₁ := h.branch hcheck (h.frame hw hf₁ hat)
        have hat₂ : At rec td (((w.evaluating s td).enter (.branch c _)).enter (.sequence s)) :=
          h.sequence hat₁ (.inr (.inr (.inr ⟨c, _, _, hk, rfl, hcheck⟩)))
        refine (of_meets (w := (w.evaluating s td).enter (.branch c _)) (hseq rec) (hf₁.knows hw) ⟨hat₁, hat₂⟩
          (h.setCallstack _ hi₁)).mono ?_ ?_
        · rintro _ w' ⟨hf, hi'⟩
          have hf₂ := hf₁.trans hf.leave
          exact h.branched (hf₂.knows hw) (h.frame hw hf₂ hat) hk hguard (h.setCallstack _ hi')
        · rintro _ w' ⟨hf, hi'⟩
          have hilost : I w'.loseBranch :=
            h.same (w := w') rfl rfl rfl (h.kept.noteStep .branchLost w'.run) hi'
          have hflost := hf.trans (treeFrame_setRun (w'.run.addStep .branchLost) w')
          exact hraise (hf₁.trans hflost.leave) (h.setCallstack _ hilost)
      · exact h.branched (hf₁.knows hw) (h.frame hw hf₁ hat) hk hguard hi₁

theorem executePhaseGroup {setup main teardown : Option PhaseSequence} {name : Option String}
    {rec : Option ℕ} {td : Bool} (hv : valid (.group (.mk setup main teardown name)))
    (hpart : ∀ o, o = setup ∨ o = main ∨ o = teardown → ∀ td',
      (spec valid I At).Meets (fun w ↦ ∀ s ∈ o, (spec valid I At).sequence s rec td' w) rec
        (executePart env exec o rec td')) {w : World}
    (hw : w.Knows rec) (hat : At rec td w) (hi : I w) :
    wp (executePhaseGroup (.mk setup main teardown name) rec td (executePart env exec setup rec td)
      (executePart env exec main rec td) (executePart env exec teardown rec))
      (fun _ ↦ I) (fun _ ↦ I) w := by
  have hseq {td' : Bool} {w' : World} (s : PhaseSequence)
      (hs : setup = some s ∨ main = some s ∨ teardown = some s) (hat' : At rec td' w') :
      (spec valid I At).sequence s rec td' w' := ⟨hat', h.sequence hat' (.inr (.inl ⟨_, hv, hs⟩))⟩
  simp only [wp_executePhaseGroup]
  refine (of_meets (hpart setup (.inl rfl) td) hw (fun s hs ↦ hseq s (.inl hs) hat) hi).mono ?_
    fun _ _ hr ↦ hr.2
  rintro r w₁ ⟨hf₁, hi₁⟩
  split_ifs
  · exact hi₁
  have hskip := skipsTeardown_eq_false (g := .mk setup main teardown name) hw hf₁
  generalize w.skipsTeardown (.mk setup main teardown name) rec w₁ = skip at hskip ⊢
  have hf₁' : TreeFrame rec w (w₁.addEvent (.groupMain w₁.callstack (.mk setup main teardown name) td
      (w₁.subtestFails rec))) := hf₁.trans (treeFrame_addEvent (by simp [Event.ctx]) (by simp))
  have hi₁' := h.event (hf₁.knows hw) (h.frame hw hf₁ hat)
    (.groupMain (.mk setup main teardown name)) hi₁
  refine (of_meets (hpart main (.inr (.inl rfl)) td) (hf₁'.knows hw)
    (fun s hs ↦ hseq s (.inr (.inl hs)) (h.frame hw hf₁' hat)) hi₁').mono ?_ fun _ _ hr ↦ hr.2
  rintro r' w₂ ⟨hf₂, hi₂⟩
  have hmain : .groupMain w₁.callstack (.mk setup main teardown name) td (w₁.subtestFails rec) ∈
      w₂.events := hf₂.events.subset (List.mem_append_right _ (List.mem_singleton_self _))
  have hf₂ := hf₁'.trans hf₂
  have hat₂ := h.frame hw hf₂ hat
  have hf₂' : TreeFrame rec w
      (w₂.addEvent (.groupTeardown w₂.callstack (.mk setup main teardown name) (!skip))) :=
    hf₂.trans (treeFrame_addEvent (by simp [Event.ctx]) (by simp))
  have hi₂' := h.event (hf₂.knows hw) hat₂ (.groupTeardown (.mk setup main teardown name) (!skip)) hi₂
  refine (of_meets (hpart teardown (.inr (.inr rfl)) (!skip)) (hf₂'.knows hw)
    (fun s hs ↦ hseq s (.inr (.inr hs)) ?_) hi₂').mono ?_ fun _ _ hr ↦ hr.2
  · refine h.teardown (g := .mk setup main teardown name) (Option.isSome_of_mem hs)
      (h.frame hw hf₂' hat) (List.mem_append_left _ ?_) hskip
    rwa [hf₁.callstack, ← hf₂'.callstack] at hmain
  · rintro r'' w₃ ⟨hf₃, hi₃⟩
    have hf₃ := hf₂'.trans hf₃
    exact h.event (hf₃.knows hw) (h.frame hw hf₃ hat) (.groupCompleted (.mk setup main teardown name)) hi₃

theorem sound : (spec valid I At).Sound env exec where
  none := id
  andThen _ _ h h' := h' ∘ h
  andRaise _ _ h h' := h' ∘ h
  loop hw hf hat _ := h.frame hw hf hat
  phase p rec td hv := h.visiting hv fun w hw hat hi ↦ h.executePhase hv hw hat hi
  checkpoint c rec td hv := h.visiting hv fun w hw hat hi ↦
    h.executeLeaf hv (h.kept.skipCheckpoint c)
      (fun r w hi ↦ h.onRun (h.kept.evaluateCheckpoint c r) hi) hw hat hi
  unhandled rec td hv := h.visiting hv fun w hw hat hi ↦ by
    simp only [wp_bind, wp_onRun, wp_pure]
    exact h.onRun (h.kept.noteStep _) hi
  sequenceNode s rec td hv hseq := h.visiting hv fun w hw hat hi ↦ by
    have hf : TreeFrame rec w (w.addEvent (.reached s td (w.subtestFails rec))) :=
      treeFrame_addEvent (by simp [Event.ctx]) (by simp)
    simp only [wp_reaching]
    exact h.executeSequenceNode hv hseq (hf.knows hw) (h.frame hw hf hat)
      (h.event hw hat (.reached s) hi)
  part s rec td hpart hseq := holds fun w hw hat hi ↦ by
    have hf : TreeFrame rec w (w.addEvent (.reached s td (w.subtestFails rec))) :=
      treeFrame_addEvent (by simp [Event.ctx]) (by simp)
    have hat' := h.frame hw hf hat.1
    simp only [executePart, wp_reaching]
    refine (of_meets hseq (hf.knows hw) ⟨hat', h.sequence hat' (.inr (.inl hpart))⟩
      (h.event hw hat.1 (.reached s) hi)).mono ?_ ?_
    · rintro _ w' ⟨hf', hi'⟩
      exact h.event (hf'.knows (hf.knows hw)) (h.frame (hf.knows hw) hf' hat')
        (.completed s _ (.inr (.inl hpart))) hi'
    · rintro _ w' ⟨hf', hi'⟩
      exact h.event (hf'.knows (hf.knows hw)) (h.frame (hf.knows hw) hf' hat') (.abandoned s _) hi'
  group g rec td hv hpart := by
    obtain ⟨setup, main, teardown, name⟩ := g
    refine h.visiting hv fun w hw hat hi ↦ ?_
    simp only [wp_enteringGroup]
    have hf : TreeFrame rec w (w.afterShared env Sync.enterGroup) := treeFrame_afterShared w
    exact h.executePhaseGroup hv hpart (hf.knows hw) (h.frame hw hf hat) (h.afterShared h.kept.enterGroup hi)
  abortable s rec hloop := holds fun w hw hat hi ↦ by
    simp only [wp_within]
    refine (of_meets (w := w.enter (.sequence s)) hloop hw hat.2 (h.setCallstack _ hi)).mono ?_ ?_
    · exact fun _ _ hr ↦ h.setCallstack _ hr.2
    · exact fun _ _ hr ↦ h.setCallstack _ hr.2
  teardown s rec hloop := holds fun w hw hat hi ↦ by
    simp only [wp_within, wp_withTeardownPhasesLock]
    have hf : TreeFrame rec (w.enter (.sequence s))
        ((w.enter (.sequence s)).afterShared env Sync.acquireTeardownPhasesLock) := treeFrame_afterShared _
    refine (of_meets hloop (hf.knows hw) (h.frame (w := w.enter (.sequence s)) hw hf hat.2)
      (h.afterShared h.kept.acquire (h.setCallstack _ hi))).mono ?_ ?_
    · exact fun _ _ hr ↦ h.setCallstack _ (h.afterShared h.kept.release hr.2)
    · exact fun _ _ hr ↦ h.setCallstack _ (h.afterShared h.kept.release hr.2)
  aborted _ _ _ hi := h.afterShared h.kept.abortIsSet hi
  notAborted {n _ w} hw hat _ := ⟨fun hi ↦ by
      have hi := h.afterShared h.kept.abortIsSet hi
      exact h.same (w := w.afterShared env Sync.abortIsSet) rfl rfl rfl
        (h.kept.pending n.isPhaseOrGroup (w.afterShared env Sync.abortIsSet).run) hi,
    h.frame hw (treeFrame_afterShared w) hat⟩
  fullAborted _ _ _ hi := h.afterShared h.kept.fullAbortIsSet hi
  notFullAborted {_ _ w} hw hat _ :=
    ⟨h.afterShared h.kept.fullAbortIsSet, h.frame hw (treeFrame_afterShared w) hat⟩

/-- The rule: what the executors of the tree keep step by step, the execution of
a node keeps. -/
theorem executeNode {n : PhaseNode} (hv : ∀ m, m = n ∨ m ∈ n.nodesBelow → valid m) {rec : Option ℕ}
    {td : Bool} {w : World} (hw : w.Knows rec) (hat : At rec td w) (hi : I w) :
    wp (TestExecutor.executeNode env exec n rec td) (fun _ ↦ I) (fun _ ↦ I) w :=
  (h.sound.tree.1 n hv rec td w hw hat).mono (fun _ _ hr ↦ hr hi) fun _ _ hr ↦ hr hi

end TreeInvariant

end OpenHtf
