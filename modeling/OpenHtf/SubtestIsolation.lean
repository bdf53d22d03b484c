import OpenHtf.Conformance
import OpenHtf.Placement
import OpenHtf.SettledLeaves

/-!
# Subtests are isolated from each other

Once the record of a subtest is FAIL, nothing below it is executed outside
teardowns: its phases and checkpoints are skipped, with one record each.  The
outcome of a subtest depends on what is in it, but in no subtest inside it, and
on whether the outer subtest had failed before.  In a group a `Subtest` that is
itself the setup, the main or the teardown is no subtest at all.
-/

set_option autoImplicit false

namespace OpenHtf

open Act TestExecutor

/-! ## Events around those of the sequence -/


/-- The events `l`, with some around them that are about no leaf. -/
def Around (l l' : List Event) : Prop :=
  ∃ before after, l' = before ++ (l ++ after) ∧
    ∀ e ∈ before ++ after, e.isPlain = true ∧ e.runs = false

namespace Around

variable {l l' : List Event} (h : Around l l')

include h

theorem mem {e : Event} (he : e ∈ l') (hplain : e.isPlain = false) : e ∈ l := by
  obtain ⟨before, after, rfl, haround⟩ := h
  by_contra hne
  have hmem : e ∈ before ++ after := by simp_all
  simp [haround e hmem] at hplain

theorem quiet (hl : ∀ e ∈ l, e.runs = false) : ∀ e ∈ l', e.runs = false := by
  obtain ⟨before, after, rfl, haround⟩ := h
  intro e he
  by_cases hmem : e ∈ l
  · exact hl e hmem
  · exact (haround e (by simp_all)).2

theorem pairwise {i : ℕ} (hl : l.Pairwise fun e e' ↦ e = .subtestFailed i → e'.runs = false) :
    l'.Pairwise fun e e' ↦ e = .subtestFailed i → e'.runs = false := by
  obtain ⟨before, after, rfl, haround⟩ := h
  have hbefore (e : Event) (he : e ∈ before) : e ≠ .subtestFailed i :=
    Event.ne_subtestFailed_of_isPlain (haround e (List.mem_append_left _ he)).1 i
  have hafter (e : Event) (he : e ∈ after) : e.runs = false := (haround e (List.mem_append_right _ he)).2
  rw [List.pairwise_append, List.pairwise_append]
  refine ⟨?_, ⟨hl, ?_, fun _ _ e' he' _ ↦ hafter e' he'⟩, fun e he _ _ heq ↦ absurd heq (hbefore e he)⟩
  · exact List.pairwise_of_forall_mem_list fun e he _ _ heq ↦ absurd heq (hbefore e he)
  · exact List.pairwise_of_forall_mem_list fun _ _ e' he' _ ↦ hafter e' he'

theorem any_failsIn (k : ℕ) : l'.any (Event.failsIn k) = l.any (Event.failsIn k) := by
  obtain ⟨before, after, rfl, haround⟩ := h
  have hnone {es : List Event} (hes : es ⊆ before ++ after) : es.any (Event.failsIn k) = false :=
    List.any_eq_false.mpr fun e he ↦ by simp [Event.failsIn_of_isPlain (haround e (hes he)).1]
  rw [List.any_append, List.any_append, hnone (List.subset_append_left _ _),
    hnone (List.subset_append_right _ _), Bool.false_or, Bool.or_false]

theorem filterMap_leafIn (k : ℕ) : l'.filterMap (Event.leafIn k) = l.filterMap (Event.leafIn k) := by
  obtain ⟨before, after, rfl, haround⟩ := h
  have hnone {es : List Event} (hes : es ⊆ before ++ after) : es.filterMap (Event.leafIn k) = [] :=
    List.filterMap_eq_nil_iff.mpr fun e he ↦ Event.leafIn_of_isPlain (haround e (hes he)).1 k
  rw [List.filterMap_append, List.filterMap_append, hnone (List.subset_append_left _ _),
    hnone (List.subset_append_right _ _), List.nil_append, List.append_nil]

end Around

/-! ## Subtests -/

/-- The world in which the sequence of a subtest is executed. -/
def World.insideSubtest (s : PhaseSequence) (rec : Option ℕ) (td : Bool) (w : World) : World :=
  ((((w.addEvent (.visited w.callstack (.sequence s) td)).enter (.node td)).addEvent
    (.reached s td (w.subtestFails rec))).beginSubtest s (w.subtestFails rec)).enter (.subtest w.subtestsMade)

section Subtest

variable {env : Env} {s : PhaseSequence} {rec : Option ℕ} {td : Bool} {w w' w₁ : World}

/-- The execution of a subtest is that of its sequence, and the record that it adds. -/
theorem executeNode_subtest (hs : s.kind = .subtest) (hw : w.Knows rec) :
    wp (executeNode env (phaseExecutor env) (.sequence s) rec td)
      (fun ret w' ↦ ∃ w₁, Settled (some w.subtestsMade) s.leaves (w.insideSubtest s rec td) ret w₁ ∧
        SkipsLast w₁.run w'.run ∧ Around ((w.insideSubtest s rec td).emitted w₁) (w.emitted w') ∧
        .completed s td (w.subtestFails rec) ∈ w.emitted w' ∧
        w'.run.testRecord.subtests = w₁.run.testRecord.subtests ++ [w₁.closedRecord w.subtestsMade ret])
      (fun _ w' ↦ ∃ w₁, Isolated (some w.subtestsMade) (w.insideSubtest s rec td) w₁ ∧
        SkipsLast w₁.run w'.run ∧ Around ((w.insideSubtest s rec td).emitted w₁) (w.emitted w')) w := by
  have hsub (sequence : Option ℕ → Executor ExecutorReturn) :
      executeSequenceNode s rec td sequence = executeSubtest s rec sequence := by
    unfold executeSequenceNode
    rw [hs]
  have hem {w₁ w' : World} {l : List Event} (hf : (w.insideSubtest s rec td).events <+: w₁.events)
      (hl : w'.events = w₁.events ++ l) :
      w.emitted w' = [.visited w.callstack (.sequence s) td, .reached s td (w.subtestFails rec)] ++
        ((w.insideSubtest s rec td).emitted w₁ ++ l) := by
    apply World.emitted_of_eq
    rw [hl, World.events_eq hf]
    simp [World.insideSubtest, World.beginSubtest, World.enter]
  have hbefore : ∀ e ∈ [Event.visited w.callstack (.sequence s) td, .reached s td (w.subtestFails rec)],
      e.isPlain = true ∧ e.runs = false := by simp [Event.isPlain, Event.runs]
  rw [executeNode]
  simp only [hsub, wp_visiting, wp_reaching]
  have hw₀ : (((w.addEvent (.visited w.callstack (.sequence s) td)).enter (.node td)).addEvent
    (.reached s td (w.subtestFails rec))).Knows rec := hw
  refine (wp_executeSubtest hw₀).mpr ?_
  refine wp.mono ((settles_tree env).2 s _ td (w.insideSubtest s rec td) knows_beginSubtest) ?_ ?_
  · intro ret w₁ h₁
    refine ⟨w₁, h₁, .of_eq rfl rfl, ⟨_, _, hem h₁.events (List.append_assoc ..), ?_⟩, ?_, rfl⟩
    · rw [List.forall_mem_append]
      exact ⟨hbefore, by simp [Event.isPlain, Event.runs]⟩
    · rw [hem h₁.events (List.append_assoc ..)]
      exact List.mem_append_right _ (List.mem_append_right _ (List.mem_append_right _ (List.mem_singleton_self _)))
  · intro e w₁ h₁
    refine ⟨w₁, h₁, .of_eq rfl rfl, _, _, hem h₁.events rfl, ?_⟩
    rw [List.forall_mem_append]
    exact ⟨hbefore, by simp [Event.isPlain, Event.runs]⟩

/-- The record with which a subtest ends, from what is in it. -/
theorem closedRecord_insideSubtest (ret : ExecutorReturn)
    (h : Isolated (some w.subtestsMade) (w.insideSubtest s rec td) w₁) :
    (w₁.closedRecord w.subtestsMade ret).name = s.name ∧
      (w₁.closedRecord w.subtestsMade ret).outcome =
        some (if ret = .TERMINAL then .STOP
          else if w.subtestFails rec || ((w.insideSubtest s rec td).emitted w₁).any
            (Event.failsIn (w.callstack.countP Frame.isSubtest + 1)) then .FAIL
          else .PASS) := by
  have hmade : w.subtestsMade < (w.insideSubtest s rec td).subtestsMade := Nat.lt_succ_self _
  have hstart : (w.insideSubtest s rec td).subtestRecords w.subtestsMade =
      { name := s.name
        startTimeMillis := w.run.moment
        outcome := some (if w.subtestFails rec then .FAIL else .PASS) } := Function.update_self _ _ _
  have hcount : (w.insideSubtest s rec td).callstack.countP Frame.isSubtest =
      w.callstack.countP Frame.isSubtest + 1 := by
    have hstack : (w.insideSubtest s rec td).callstack = .subtest w.subtestsMade :: .node td :: w.callstack := rfl
    rw [hstack, List.countP_cons_of_pos rfl, List.countP_cons_of_neg Bool.false_ne_true]
  have hfails := h.fails _ rfl
  rw [hcount] at hfails
  by_cases hm : .subtestFailed w.subtestsMade ∈ (w.insideSubtest s rec td).emitted w₁
  · have hrecord := (h.failed _ hmade hm).2
    rw [hstart] at hrecord
    simp [World.closedRecord, hrecord, hfails.mp hm]
    split <;> rfl
  · have hrecord := h.kept _ hmade hm
    rw [hstart] at hrecord
    simp [World.closedRecord, hrecord, Bool.eq_false_iff.mpr (mt hfails.mpr hm)]
    split <;> rfl

end Subtest

/-- Whether the execution of the subtest `s` under `rec`, from `w` to `w'`, isolates it. -/
structure SubtestIsolated (s : PhaseSequence) (rec : Option ℕ) (td : Bool) (w : World)
    (r : Except PyExc ExecutorReturn) (w' : World) : Prop where
  /-- Nothing is executed outside a teardown when the outer subtest had failed before. -/
  quiet : w.subtestFails rec = true → ∀ e ∈ w.emitted w', e.runs = false
  /-- Nothing is executed outside a teardown after the subtest has failed. -/
  after : (w.emitted w').Pairwise fun e e' ↦ e = .subtestFailed w.subtestsMade → e'.runs = false
  /-- A skip is one record, which says so. -/
  skips : ∀ ctx n first next, .skipped ctx n first next ∈ w.emitted w' →
    next = first + 1 ∧ n.SkipRecorded first w'.run.testRecord
  /-- Each phase and checkpoint that is not inside a branch is executed or skipped once, in order. -/
  leaves : r = .ok .CONTINUE →
    (w.emitted w').filterMap (Event.leafIn (w.callstack.countP Frame.isBranchSequence)) = s.leaves
  /-- Only an abort, a terminal outcome or a foreign class of nodes keeps it from continuing. -/
  continues : Begins false td w.run → ¬w'.Stops → r ≠ .ok .TERMINAL
  /-- One record for each subtest that is completed, the last one for this one. -/
  records : ∀ ret, r = .ok ret → ∃ inner own,
    w'.run.testRecord.subtests = w.run.testRecord.subtests ++ (inner ++ [own]) ∧
      (inner ++ [own]).map (·.name) = (w.emitted w').filterMap Event.subtestCompleted ∧
      own.name = s.name ∧
      own.outcome = some (if ret = .TERMINAL then .STOP
        else if w.subtestFails rec || (w.emitted w').any
          (Event.failsIn (w.callstack.countP Frame.isSubtest + 1)) then .FAIL
        else .PASS)
  /-- The records that were there before stay as they are. -/
  outer : ∀ j < w.subtestsMade, w'.subtestRecords j = w.subtestRecords j

/-- If the node is a group, none of its sequences is itself a `Subtest`. -/
def PhaseNode.hasNoSubtestPart : PhaseNode → Bool
  | .group g => g.parts.all fun s ↦ s.kind ≠ .subtest
  | _ => true

theorem kind_ne_subtest_of_isPart {s : PhaseSequence} (h : IsPart (·.hasNoSubtestPart = true) s) :
    s.kind ≠ .subtest := by
  obtain ⟨g, hg, hs⟩ := h
  have hmem : s ∈ g.parts := by simpa [PhaseGroup.parts, or_assoc] using hs
  simpa using List.all_eq_true.mp hg s hmem

/-- The record that was added last is one of those for the completed subtests. -/
theorem SubtestsRecorded.own {s : PhaseSequence} {td b : Bool} {w w' : World} (h : SubtestsRecorded w w')
    (hs : s.kind = .subtest) (hcompleted : .completed s td b ∈ w.emitted w') {l : List SubtestRecord}
    {own : SubtestRecord} (hown : w'.run.testRecord.subtests = l ++ [own]) :
    ∃ inner, w'.run.testRecord.subtests = w.run.testRecord.subtests ++ (inner ++ [own]) ∧
      (inner ++ [own]).map (·.name) = (w.emitted w').filterMap Event.subtestCompleted := by
  obtain ⟨added, hadded, hnames⟩ := h.added
  have hdue : s.name ∈ (w.emitted w').filterMap Event.subtestCompleted :=
    List.mem_filterMap.mpr ⟨_, hcompleted, if_pos hs⟩
  rcases List.eq_nil_or_concat added with rfl | ⟨inner, last, rfl⟩
  · rw [← hnames] at hdue
    cases hdue
  · rw [List.concat_eq_append] at hadded hnames
    have hsame : last = own := by
      rw [hown, ← List.append_assoc] at hadded
      exact (List.append_inj' hadded rfl).2 |> List.singleton_inj.mp |>.symm
    exact ⟨inner, hsame ▸ hadded, hsame ▸ hnames⟩

/-- A subtest is isolated if no group in it has a `Subtest` itself as one of its
sequences. -/
theorem subtest_isolated (env : Env) (s : PhaseSequence) (hs : s.kind = .subtest)
    (hparts : ∀ n ∈ s.allNodes, n.hasNoSubtestPart = true) (rec : Option ℕ) (td : Bool) (w : World)
    (hw : w.Knows rec) :
    SubtestIsolated s rec td w (executeNode env (phaseExecutor env) (.sequence s) rec td w).1
      (executeNode env (phaseExecutor env) (.sequence s) rec td w).2 := by
  let x := executeNode env (phaseExecutor env) (.sequence s) rec td w
  change SubtestIsolated s rec td w x.1 x.2
  have hrun := @executeNode_subtest env s rec td w hs hw
  obtain ⟨w₁, h₁, hlast, haround⟩ : ∃ w₁, Isolated (some w.subtestsMade) (w.insideSubtest s rec td) w₁ ∧
      SkipsLast w₁.run x.2.run ∧ Around ((w.insideSubtest s rec td).emitted w₁) (w.emitted x.2) :=
    wp_same.mp (hrun.mono (fun _ _ ⟨w₁, h₁, hlast, haround, _⟩ ↦ ⟨w₁, h₁.toIsolated, hlast, haround⟩)
      fun _ _ h ↦ h)
  have hframe : TreeFrame rec w x.2 := framed_tree.1 (.sequence s) rec td w hw
  have hvalid : ∀ m, m = .sequence s ∨ m ∈ (PhaseNode.sequence s).nodesBelow → m.hasNoSubtestPart = true := by
    rintro m (rfl | hm)
    · rfl
    · exact hparts m hm
  have hrecorded : SubtestsRecorded w x.2 :=
    wp_same.mp ((subtestsRecorded_invariant env w fun s h ↦ kind_ne_subtest_of_isPart h).executeNode hvalid
      hw trivial (.refl w))
  refine ⟨fun hfail ↦ ?_, ?_, fun ctx n first next hm ↦ ?_, fun hr ↦ ?_, fun hbegins hstops hr ↦ ?_,
    fun ret hr ↦ ?_, fun j hj ↦ ?_⟩
  · exact haround.quiet (h₁.quiet ((World.subtestFails_beginSubtest_self s _ _).trans hfail))
  · exact haround.pairwise (h₁.after _ rfl)
  · obtain ⟨hnext, hn⟩ := h₁.skips ctx n first next (haround.mem hm rfl)
    exact ⟨hnext, hlast.skipRecorded hn⟩
  · obtain ⟨w₂, h₂, -, haround₂, -⟩ := hrun.of_ok (Prod.ext hr rfl)
    rw [haround₂.filterMap_leafIn]
    exact h₂.leaves rfl
  · have hsound : conformance.Sound env (phaseExecutor env) := conformance_sound
    have hran := hsound.tree.1 (.sequence s) (fun _ _ ↦ trivial) rec td w hw hbegins
    exact hstops ((hran.of_ok (Prod.ext hr rfl)).reason rfl)
  · obtain ⟨w₂, h₂, -, haround₂, hcompleted, hown⟩ := hrun.of_ok (Prod.ext hr rfl)
    obtain ⟨inner, hsubtests, hnames⟩ := hrecorded.own hs hcompleted hown
    obtain ⟨hname, houtcome⟩ := closedRecord_insideSubtest ret h₂.toIsolated
    refine ⟨inner, _, hsubtests, hnames, hname, ?_⟩
    rw [haround₂.any_failsIn, houtcome]
  · refine hframe.kept j hj fun hm ↦ ?_
    have hself := (h₁.failed j (Nat.lt_succ_of_lt hj) (haround.mem hm rfl)).1
    exact absurd (Option.some.inj hself) (Nat.ne_of_gt hj)

/-- A phase fails the outer subtest before the inner one. -/
theorem subtest_isolated_nested :
    let s : PhaseSequence := .mk .subtest (some "outer") [
      .phase { id := 0, name := "fails", func := fun _ ↦ { ends := .returned (some .FAIL_SUBTEST) } },
      .sequence (.mk .subtest (some "inner") [.phase { id := 1, name := "measure" }])]
    SubtestIsolated s none false {} (executeNode {} (phaseExecutor {}) (.sequence s) none false {}).1
      (executeNode {} (phaseExecutor {}) (.sequence s) none false {}).2 :=
  subtest_isolated {} _ rfl (by decide +kernel) none false {} (by simp [World.Knows])

/-- A subtest that is the main of a group itself has no record, and when it fails the
outer subtest fails. -/
theorem not_subtestIsolated_groupMain :
    let s : PhaseSequence := .mk .subtest (some "outer") [.group (.new .none
      (.sequence (.mk .subtest (some "inner") [.phase
        { id := 0, name := "fails", func := fun _ ↦ { ends := .returned (some .FAIL_SUBTEST) } }])) .none)]
    let w := (executeNode {} (phaseExecutor {}) (.sequence s) none false {}).2
    w.run.testRecord.subtests.map (fun r ↦ (r.name, r.outcome)) = [(some "outer", some .FAIL)] ∧
      ¬SubtestIsolated s none false {}
        (executeNode {} (phaseExecutor {}) (.sequence s) none false {}).1 w := by
  refine ⟨by decide +kernel, fun h ↦ ?_⟩
  obtain ⟨inner, own, hsubtests, hnames, -⟩ := h.records .CONTINUE (by decide +kernel)
  have hadded := hsubtests.trans (List.nil_append _)
  rw [← hadded] at hnames
  revert hnames
  decide +kernel

end OpenHtf
