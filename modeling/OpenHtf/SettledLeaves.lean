import OpenHtf.AutomaticSkips
import OpenHtf.TreeInvariant

/-!
# Every leaf is settled

The execution of a tree executes or skips each phase and each checkpoint that is
not inside a branch once, in the order of the tree, if it comes to its end.  What
is executed after the subtest has failed is in a teardown.
-/

set_option autoImplicit false

namespace OpenHtf

open Act TestExecutor

/-! ## Leaves -/

def PhaseSequence.isBranch (s : PhaseSequence) : Bool :=
  match s.kind with
  | .branch _ => true
  | _ => false

mutual

/-- The phases and checkpoints of a node that are not inside a branch. -/
def PhaseNode.leaves : PhaseNode → List PhaseNode
  | .phase p => [.phase p]
  | .checkpoint c => [.checkpoint c]
  | .sequence s => s.leaves
  | .group (.mk setup main teardown _) => leavesOfPart setup ++ (leavesOfPart main ++ leavesOfPart teardown)
  | .unhandled => []

def PhaseSequence.leaves : PhaseSequence → List PhaseNode
  | .mk (.branch _) _ _ => []
  | .mk _ _ nodes => leavesOf nodes

def leavesOf : List PhaseNode → List PhaseNode
  | [] => []
  | n :: ns => n.leaves ++ leavesOf ns

def leavesOfPart : Option PhaseSequence → List PhaseNode
  | none => []
  | some s => s.leaves

end

def Frame.isBranchSequence : Frame → Bool
  | .sequence s => s.isBranch
  | _ => false

def Frame.isSubtest : Frame → Bool
  | .subtest _ => true
  | _ => false

namespace Event

/-- A phase, a checkpoint or a branch is executed outside a teardown. -/
def runs : Event → Bool
  | .executing _ _ inTeardown | .ended _ _ inTeardown _ => !inTeardown
  | _ => false

/-- The phase or checkpoint that is executed or skipped inside so many branches. -/
def leafIn (branches : ℕ) : Event → Option PhaseNode
  | .ended ctx n _ _ | .skipped ctx n _ _ =>
      if ctx.countP Frame.isBranchSequence = branches then some n else none
  | _ => none

/-- A phase or a checkpoint inside so many subtests ends with FAIL_SUBTEST. -/
def failsIn (subtests : ℕ) : Event → Bool
  | .ended ctx _ _ o => o.isFailSubtest && ctx.countP Frame.isSubtest == subtests
  | _ => false

theorem leafIn_eq_none {e : Event} {k : ℕ} (h : ∀ ctx ∈ e.ctx, k < ctx.countP Frame.isBranchSequence) :
    e.leafIn k = none := by
  cases e with
  | ended ctx n td o => exact if_neg (Nat.ne_of_gt (h ctx rfl))
  | skipped ctx n first next => exact if_neg (Nat.ne_of_gt (h ctx rfl))
  | _ => rfl

theorem failsIn_eq_false {e : Event} {k : ℕ} (h : ∀ ctx ∈ e.ctx, k < ctx.countP Frame.isSubtest) :
    e.failsIn k = false := by
  cases e with
  | ended ctx n td o =>
      have hne := Nat.ne_of_gt (h ctx rfl)
      simp [failsIn, hne]
  | _ => rfl

/-- An event that ends no leaf and fails no subtest. -/
def isPlain : Event → Bool
  | .ended .. | .skipped .. | .subtestFailed _ => false
  | _ => true

section Plain

variable {e : Event} (h : e.isPlain = true)

include h

theorem leafIn_of_isPlain (k : ℕ) : e.leafIn k = none := by
  cases e with
  | ended => cases h
  | skipped => cases h
  | _ => rfl

theorem failsIn_of_isPlain (k : ℕ) : e.failsIn k = false := by
  cases e with
  | ended => cases h
  | _ => rfl

theorem ne_subtestFailed_of_isPlain (i : ℕ) : e ≠ .subtestFailed i := by
  rintro rfl
  cases h

end Plain

end Event

/-! ## What the execution of a node comes to -/

/-- What the execution of a node under the subtest `rec` keeps, and what it does
once the subtest has failed. -/
structure Isolated (rec : Option ℕ) (w w' : World) : Prop extends TreeFrame rec w w' where
  skipsLast : SkipsLast w.run w'.run
  skips : ∀ ctx n first next, .skipped ctx n first next ∈ w.emitted w' →
    next = first + 1 ∧ n.SkipRecorded first w'.run.testRecord
  quiet : w.subtestFails rec = true → ∀ e ∈ w.emitted w', e.runs = false
  after : ∀ i ∈ rec, (w.emitted w').Pairwise fun e e' ↦ e = .subtestFailed i → e'.runs = false
  fails : ∀ i ∈ rec, .subtestFailed i ∈ w.emitted w' ↔
    (w.emitted w').any (Event.failsIn (w.callstack.countP Frame.isSubtest)) = true

/-- The same, and if it continues then the leaves `l` were executed or skipped. -/
structure Settled (rec : Option ℕ) (l : List PhaseNode) (w : World) (r : ExecutorReturn) (w' : World) :
    Prop extends Isolated rec w w' where
  leaves : r = .CONTINUE →
    (w.emitted w').filterMap (Event.leafIn (w.callstack.countP Frame.isBranchSequence)) = l

section Settled

variable {rec : Option ℕ} {l l' : List PhaseNode} {w w' w₁ w₂ : World} {r r' : ExecutorReturn}

theorem Isolated.trans (h : Isolated rec w w₁) (h' : Isolated rec w₁ w₂) (hw : w.Knows rec) :
    Isolated rec w w₂ := by
  have hem := World.emitted_trans h.events h'.events
  refine { h.toTreeFrame.trans h'.toTreeFrame with
    skipsLast := IsTrans.trans _ _ _ h.skipsLast h'.skipsLast
    skips := fun ctx n first next hm ↦ ?_
    quiet := fun hfail e he ↦ ?_
    after := fun i hi ↦ ?_
    fails := fun i hi ↦ ?_ }
  · rcases List.mem_append.mp (hem ▸ hm) with hm | hm
    · obtain ⟨hnext, hn⟩ := h.skips ctx n first next hm
      exact ⟨hnext, h'.skipsLast.skipRecorded hn⟩
    · exact h'.skips ctx n first next hm
  · rcases List.mem_append.mp (hem ▸ he) with he | he
    · exact h.quiet hfail e he
    · exact h'.quiet (h.subtestFails hw hfail) e he
  · rw [hem, List.pairwise_append]
    refine ⟨h.after i hi, h'.after i hi, ?_⟩
    rintro e he e' he' rfl
    refine h'.quiet ?_ e' he'
    obtain rfl : rec = some i := hi
    exact (h.subtestFails_iff (hw i rfl)).mpr (.inr he)
  · have hfails' := h'.fails i hi
    rw [h.callstack] at hfails'
    rw [hem, List.mem_append, h.fails i hi, hfails', List.any_append, Bool.or_eq_true]

theorem Settled.trans (h : Settled rec l w r w₁) (h' : Settled rec l' w₁ r' w₂) (hw : w.Knows rec) :
    Settled rec (l ++ l') w (moreCritical r r') w₂ := by
  refine { h.toIsolated.trans h'.toIsolated hw with leaves := fun hr ↦ ?_ }
  cases r with
  | TERMINAL => cases hr
  | CONTINUE =>
      have hleaves' := h'.leaves hr
      rw [h.callstack] at hleaves'
      rw [World.emitted_trans h.events h'.events, List.filterMap_append, h.leaves rfl, hleaves']

/-- Steps that settle no leaf may come before. -/
theorem Settled.preceded (h : Settled rec l w₁ r w') (hw₁ : Settled rec [] w .CONTINUE w₁)
    (hw : w.Knows rec) : Settled rec l w r w' := hw₁.trans h hw

/-- Steps that settle no leaf may come after. -/
theorem Settled.followed (h : Settled rec l w r w₁) (hw' : Settled rec [] w₁ .CONTINUE w')
    (hw : w.Knows rec) : Settled rec l w r w' := by
  have hstep := h.trans hw' hw
  rwa [List.append_nil, moreCritical_continue_right] at hstep

/-- What returns TERMINAL need not have come to every leaf. -/
theorem Isolated.terminal (h : Isolated rec w w') : Settled rec l w .TERMINAL w' :=
  { h with leaves := by simp }

/-- A step without events. -/
theorem settled_silent (hf : TreeFrame rec w w') (hevents : w'.events = w.events)
    (hrun : SkipsLast w.run w'.run) : Settled rec [] w .CONTINUE w' := by
  have hem : w.emitted w' = [] := World.emitted_of_eq (by rw [hevents, List.append_nil])
  exact { hf with
    skipsLast := hrun
    skips := by simp [hem]
    quiet := by simp [hem]
    after := by simp [hem]
    fails := by simp [hem]
    leaves := by simp [hem] }

theorem settled_refl (rec : Option ℕ) (w : World) : Settled rec [] w .CONTINUE w :=
  settled_silent (.refl rec w) rfl (Std.Refl.refl _)

theorem settled_setRun {s : RunState} (h : SkipsLast w.run s) : Settled rec [] w .CONTINUE (w.setRun s) :=
  settled_silent (treeFrame_setRun s w) rfl h

theorem settled_afterShared {α : Type} (env : Env) (op : Sync → α × Sync) :
    Settled rec [] w .CONTINUE (w.afterShared env op) :=
  settled_silent (treeFrame_afterShared w) rfl (.of_eq rfl rfl)

theorem settled_addEvent {e : Event} (hctx : ∀ ctx ∈ e.ctx, ctx = w.callstack) (he : e.isPlain = true)
    (hruns : w.subtestFails rec = true → e.runs = false) :
    Settled rec [] w .CONTINUE (w.addEvent e) := by
  have hem := World.emitted_addEvent w e
  have hf : TreeFrame rec w (w.addEvent e) :=
    treeFrame_addEvent hctx (Event.ne_subtestFailed_of_isPlain he)
  refine { hf with
    skipsLast := Std.Refl.refl _
    skips := fun ctx n first next hm ↦ ?_
    quiet := fun hfail e' he' ↦ ?_
    after := by simp [hem]
    fails := fun i _ ↦ ?_
    leaves := fun _ ↦ ?_ }
  · obtain rfl : _ = e := List.mem_singleton.mp (hem ▸ hm)
    cases he
  · obtain rfl : e' = e := List.mem_singleton.mp (hem ▸ he')
    exact hruns hfail
  · simp [hem, (Event.ne_subtestFailed_of_isPlain he i).symm, Event.failsIn_of_isPlain he]
  · rw [hem, List.filterMap_cons_none (Event.leafIn_of_isPlain he _), List.filterMap_nil]

/-- What is not skipped is executed in a teardown or under a subtest that has not failed. -/
theorem executes_of_not_skips {td : Bool} (h : ¬(!td && w.subtestFails rec) = true) :
    td = true ∨ w.subtestFails rec = false := by
  cases td with
  | false => exact .inr (by simpa using h)
  | true => exact .inl rfl

theorem settled_executing (n : PhaseNode) {td : Bool} (h : td = true ∨ w.subtestFails rec = false) :
    Settled rec [] w .CONTINUE (w.addEvent (.executing w.callstack n td)) := by
  refine settled_addEvent (by simp [Event.ctx]) rfl fun hfail ↦ ?_
  simp [Event.runs, h.resolve_right (by simp [hfail])]

theorem isFailSubtest_of_isTerminal {o : PhaseExecutionOutcome} (h : o.isTerminal = true) :
    o.isFailSubtest = false := by
  cases hfail : o.isFailSubtest with
  | false => rfl
  | true =>
      obtain rfl : o = .result .FAIL_SUBTEST := eq_of_beq hfail
      cases h

/-- The end of a leaf that does not fail the subtest. -/
theorem settled_ended {n : PhaseNode} {td : Bool} {o : PhaseExecutionOutcome} (hf : TreeFrame rec w w')
    (hevents : w'.events = w.events ++ [.ended w.callstack n td o]) (hrun : w'.run = w.run)
    (hguard : td = true ∨ w.subtestFails rec = false) (ho : rec.isSome = true → o.isFailSubtest = false) :
    Settled rec [n] w r w' := by
  have hem := World.emitted_of_eq hevents
  refine { hf with
    skipsLast := hrun ▸ Std.Refl.refl _
    skips := by simp [hem]
    quiet := fun hfail e he ↦ ?_
    after := by simp [hem]
    fails := fun i hi ↦ ?_
    leaves := by simp [hem, Event.leafIn] }
  · obtain rfl : e = _ := List.mem_singleton.mp (hem ▸ he)
    simp [Event.runs, hguard.resolve_right (by simp [hfail])]
  · simp [hem, Event.failsIn, ho (Option.isSome_of_mem hi)]

/-- The end of a leaf that fails the subtest. -/
theorem settled_endedFailed {n : PhaseNode} {td : Bool} {o : PhaseExecutionOutcome} {i : ℕ}
    (hguard : td = true ∨ w.subtestFails (some i) = false) (ho : o.isFailSubtest = true) :
    Settled (some i) [n] w r
      (((w.addEvent (.ended w.callstack n td o)).setSubtestOutcome i .FAIL).addEvent (.subtestFailed i)) := by
  set w₁ := w.addEvent (.ended w.callstack n td o)
  have hem : w.emitted ((w₁.setSubtestOutcome i .FAIL).addEvent (.subtestFailed i)) =
      [.ended w.callstack n td o, .subtestFailed i] :=
    World.emitted_of_eq (List.append_assoc ..)
  have hended : TreeFrame (some i) w w₁ := treeFrame_addEvent (by simp [Event.ctx]) (by simp)
  refine { hended.trans (treeFrame_subtestFailed w₁ i) with
    skipsLast := Std.Refl.refl _
    skips := by simp [hem]
    quiet := fun hfail e he ↦ ?_
    after := fun j _ ↦ ?_
    fails := fun j hj ↦ ?_
    leaves := fun _ ↦ ?_ }
  · rw [hem, List.mem_pair] at he
    rcases he with rfl | rfl
    · simp [Event.runs, hguard.resolve_right (by simp [hfail])]
    · rfl
  · simp [hem]
  · obtain rfl : i = j := Option.some.inj hj
    simp [hem, Event.failsIn, ho]
  · simp [hem, Event.leafIn]

theorem settled_conclude {n : PhaseNode} {td : Bool} (o : PhaseExecutionOutcome) (unit : String)
    (hguard : td = true ∨ w.subtestFails rec = false) :
    wp (conclude o unit rec) (Settled rec [n] w) (fun _ ↦ Isolated rec w)
      (w.addEvent (.ended w.callstack n td o)) := by
  have hended : TreeFrame rec w (w.addEvent (.ended w.callstack n td o)) :=
    treeFrame_addEvent (by simp [Event.ctx]) (by simp)
  simp only [conclude, wp_ite, wp_bind, wp_modify, wp_pure]
  split_ifs with hterminal hlast hfail
  · exact settled_ended hended rfl rfl hguard fun _ ↦ isFailSubtest_of_isTerminal hterminal
  · refine settled_ended (hended.trans (.of_eq rfl rfl rfl ?_ (Nat.le_refl _) fun _ _ ↦ rfl)) rfl rfl hguard
      fun _ ↦ isFailSubtest_of_isTerminal hterminal
    exact fun h ↦ absurd h hlast
  · cases rec with
    | none => exact (settled_ended (r := .CONTINUE) hended rfl rfl hguard (by simp)).toIsolated
    | some i => exact settled_endedFailed hguard hfail
  · exact settled_ended hended rfl rfl hguard fun _ ↦ by simpa using hfail

/-- A skip of a leaf. -/
theorem settled_skipped {n : PhaseNode} {first next : ℕ} (hnext : next = first + 1)
    (hn : n.SkipRecorded first w.run.testRecord) :
    Settled rec [n] w r (w.addEvent (.skipped w.callstack n first next)) := by
  have hem := World.emitted_addEvent w (.skipped w.callstack n first next)
  have hf : TreeFrame rec w (w.addEvent (.skipped w.callstack n first next)) :=
    treeFrame_addEvent (by simp [Event.ctx]) (by simp)
  refine { hf with
    skipsLast := Std.Refl.refl _
    skips := fun ctx m first' next' hm ↦ ?_
    quiet := by simp [hem, Event.runs]
    after := by simp [hem]
    fails := by simp [hem, Event.failsIn]
    leaves := by simp [hem, Event.leafIn] }
  obtain ⟨-, rfl, rfl, rfl⟩ := Event.skipped.inj (List.mem_singleton.mp (hem ▸ hm))
  exact ⟨hnext, hn⟩

end Settled

/-! ## Statements that settle leaves -/

/-- Under the subtest `rec` the statement executes or skips the leaves `l`. -/
def Settles (rec : Option ℕ) (l : List PhaseNode) (x : Executor ExecutorReturn) : Prop :=
  ∀ w, w.Knows rec → wp x (Settled rec l w) (fun _ ↦ Isolated rec w) w

section Leaves

variable {rec : Option ℕ} {td : Bool}

theorem settles_executeLeaf {n : PhaseNode} {unit : String} {records : TestRecord → ℕ}
    {skip : Option SubtestRecord → Exec Unit} {run : Option SubtestRecord → Exec PhaseExecutionOutcome}
    (hskip : ∀ r, Within SkipsLast (skip r))
    (hrecord : ∀ r s, wp (skip r) (fun _ s' ↦ records s'.testRecord = records s.testRecord + 1 ∧
      n.SkipRecorded (records s.testRecord) s'.testRecord) (fun _ _ ↦ True) s)
    (hrun : ∀ r, Within SkipsLast (run r)) :
    Settles rec [n] (executeLeaf n unit records skip run rec td) := by
  intro w hw
  simp only [executeLeaf, subtestRecord, autoSkips, noteThread, wp_bind, wp_gets, wp_ite, wp_onRun, wp_modify,
    wp_noteEvent, wp_pure, World.setRun_setRun]
  split
  · rename_i hskips
    have hpending : SkipsLast w.run (w.run.mapSync (Sync.setStartPending false)) := .of_eq rfl rfl
    have hstep (s : RunState) (hlast : SkipsLast (w.run.mapSync (Sync.setStartPending false)) s) :
        Settled rec [] w .CONTINUE (w.setRun s) := settled_setRun (IsTrans.trans _ _ _ hpending hlast)
    refine (((hskip _).wp _).and (hrecord _ _)).mono ?_ ?_
    · rintro - s ⟨hlast, hnext, hn⟩
      exact (settled_skipped hnext hn).preceded (hstep s hlast) hw
    · rintro e s ⟨hlast, -⟩
      exact (hstep s hlast).toIsolated
  · rename_i hskips
    have hguard := executes_of_not_skips hskips
    have hexecuting := settled_executing n hguard
    have hstep (s : RunState) (hlast : SkipsLast w.run s) :
        Settled rec [] w .CONTINUE ((w.addEvent (.executing w.callstack n td)).setRun s) :=
      hexecuting.followed (settled_setRun hlast) hw
    refine ((hrun _).wp _).mono ?_ ?_
    · intro o s hlast
      refine (settled_conclude o unit ?_).mono ?_ ?_
      · exact hguard
      · exact fun r w' h ↦ h.preceded (hstep s hlast) hw
      · exact fun _ w' h ↦ (hstep s hlast).toIsolated.trans h hw
    · exact fun e s hlast ↦ (hstep s hlast).toIsolated

end Leaves

/-! ## Activities -/

section Activities

variable {rec : Option ℕ} {l : List PhaseNode} {w w' : World} {r : ExecutorReturn} {f : Frame}

/-- What happens inside an activity, seen from outside. -/
theorem Isolated.leave (h : Isolated rec (w.enter f) w') (hf : f.isSubtest = false) :
    Isolated rec w (w'.setCallstack w.callstack) where
  toTreeFrame := h.toTreeFrame.leave
  skipsLast := h.skipsLast
  skips := h.skips
  quiet := h.quiet
  after := h.after
  fails i hi := by
    have hfails := h.fails i hi
    rwa [World.enter, World.setCallstack_callstack, List.countP_cons_of_neg (by simp [hf])] at hfails

theorem Settled.leave (h : Settled rec l (w.enter f) r w') (hf : f.isSubtest = false)
    (hb : f.isBranchSequence = false) : Settled rec l w r (w'.setCallstack w.callstack) := by
  refine { h.toIsolated.leave hf with leaves := fun hr ↦ ?_ }
  have hleaves := h.leaves hr
  rwa [World.enter, World.setCallstack_callstack, List.countP_cons_of_neg (by simp [hb])] at hleaves

/-- The leaves inside a branch do not count outside of it. -/
theorem Settled.leaveBranch (h : Settled rec l (w.enter f) r w') (hf : f.isSubtest = false)
    (hb : f.isBranchSequence = true) : Settled rec [] w r (w'.setCallstack w.callstack) := by
  refine { h.toIsolated.leave hf with leaves := fun _ ↦ List.filterMap_eq_nil_iff.mpr fun e he ↦ ?_ }
  refine Event.leafIn_eq_none fun ctx hctx ↦ ?_
  have hsub := (h.contexts e he ctx hctx).sublist.countP_le (p := Frame.isBranchSequence)
  rw [World.enter, World.setCallstack_callstack, List.countP_cons_of_pos hb] at hsub
  exact hsub

/-- The record of a subtest is FAIL from the start when the outer subtest has failed. -/
theorem World.subtestFails_beginSubtest_self (s : PhaseSequence) (b : Bool) (w : World) :
    (w.beginSubtest s b).subtestFails (some w.subtestsMade) = b := by
  cases b <;> simp [World.subtestFails, World.beginSubtest, SubtestRecord.isFail]

/-- What happens inside a subtest, seen from outside. -/
theorem Isolated.ofSubtest {s : PhaseSequence}
    (h : Isolated (some w.subtestsMade)
      ((w.beginSubtest s (w.subtestFails rec)).enter (.subtest w.subtestsMade)) w') (hw : w.Knows rec) :
    Isolated rec w (w'.setCallstack w.callstack) := by
  have hem : w.emitted (w'.setCallstack w.callstack) =
      ((w.beginSubtest s (w.subtestFails rec)).enter (.subtest w.subtestsMade)).emitted w' := rfl
  have hother (j : ℕ) (hj : j ∈ rec) : .subtestFailed j ∉ w.emitted (w'.setCallstack w.callstack) := by
    intro hm
    have hself := (h.failed j (Nat.lt_succ_of_lt (hw j hj)) hm).1
    exact absurd (Option.some.inj hself) (Nat.ne_of_gt (hw j hj))
  refine { TreeFrame.ofSubtest h.toTreeFrame with
    skipsLast := ⟨h.skipsLast.phases, h.skipsLast.checkpoints⟩
    skips := h.skips
    quiet := fun hfail ↦ ?_
    after := fun j hj ↦ ?_
    fails := fun j hj ↦ ?_ }
  · exact h.quiet ((World.subtestFails_beginSubtest_self s _ w).trans hfail)
  · refine List.pairwise_of_forall_mem_list fun e he e' _ heq ↦ ?_
    exact absurd (heq ▸ he) (hother j hj)
  · refine iff_of_false (hother j hj) ?_
    rw [List.any_eq_true]
    rintro ⟨e, he, hfails⟩
    refine absurd hfails (Bool.eq_false_iff.mp (Event.failsIn_eq_false fun ctx hctx ↦ ?_))
    have hsub := (h.contexts e he ctx hctx).sublist.countP_le (p := Frame.isSubtest)
    rw [World.enter, World.setCallstack_callstack, List.countP_cons_of_pos rfl] at hsub
    exact hsub

/-- Closing a subtest whose record was made after `w`. -/
theorem Isolated.endSubtest {i : ℕ} {b : Bool} (h : Isolated rec w w') (hi : w.subtestsMade ≤ i) :
    Isolated rec w (w'.endSubtest i b r) := by
  have hem : w.emitted (w'.endSubtest i b r) =
      w.emitted w' ++ [.subtestRecorded i b r (w'.closedRecord i r)] := by
    apply World.emitted_of_eq
    rw [← List.append_assoc, ← World.events_eq h.events]
    rfl
  have hend : SkipsLast w'.run (w'.endSubtest i b r).run := .of_eq rfl rfl
  refine { h.toTreeFrame.endSubtest hi with
    skipsLast := IsTrans.trans _ _ _ h.skipsLast hend
    skips := fun ctx n first next hm ↦ ?_
    quiet := fun hfail e he ↦ ?_
    after := fun j hj ↦ ?_
    fails := fun j hj ↦ ?_ }
  · have hm : .skipped ctx n first next ∈ w.emitted w' := by simpa [hem] using hm
    obtain ⟨hnext, hn⟩ := h.skips ctx n first next hm
    exact ⟨hnext, hend.skipRecorded hn⟩
  · rcases List.mem_append.mp (hem ▸ he) with he | he
    · exact h.quiet hfail e he
    · obtain rfl : e = _ := List.mem_singleton.mp he
      rfl
  · rw [hem, List.pairwise_append]
    refine ⟨h.after j hj, List.pairwise_singleton _ _, fun e _ e' he' _ ↦ ?_⟩
    obtain rfl : e' = _ := List.mem_singleton.mp he'
    rfl
  · simp [hem, h.fails j hj, Event.failsIn]

end Activities

section Collections

variable {env : Env} {exec : PhaseExecutor} {rec : Option ℕ} {l : List PhaseNode} {td : Bool}
  {x : Executor ExecutorReturn}

theorem settles_visiting (n : PhaseNode) (h : Settles rec l x) : Settles rec l (visiting n td x) := by
  intro w hw
  simp only [wp_visiting]
  have hvisit : Settled rec [] w .CONTINUE (w.addEvent (.visited w.callstack n td)) :=
    settled_addEvent (by simp [Event.ctx]) rfl fun _ ↦ rfl
  refine wp.mono (h _ hw) ?_ ?_
  · exact fun r w' hr ↦ (hr.leave rfl rfl).preceded hvisit hw
  · exact fun e w' hr ↦ hvisit.toIsolated.trans (hr.leave rfl) hw

theorem settles_reaching (s : PhaseSequence) (h : Settles rec l x) :
    Settles rec l (reaching s rec td x) := by
  intro w hw
  simp only [wp_reaching]
  have hevent {e : Event} (w : World) (hctx : e.ctx = none) (he : e.isPlain = true) (hruns : e.runs = false) :
      Settled rec [] w .CONTINUE (w.addEvent e) :=
    settled_addEvent (by simp [hctx]) he fun _ ↦ hruns
  have hreach := hevent (e := .reached s td (w.subtestFails rec)) w rfl rfl rfl
  refine wp.mono (h _ hw) ?_ ?_
  · exact fun r w' hr ↦ (hr.preceded hreach hw).followed (hevent w' rfl rfl rfl) hw
  · exact fun e w' hr ↦ (hreach.toIsolated.trans hr hw).trans (hevent w' rfl rfl rfl).toIsolated hw

theorem settles_executeSubtest (s : PhaseSequence) {sequence : Option ℕ → Executor ExecutorReturn}
    (h : ∀ rec, Settles rec l (sequence rec)) : Settles rec l (executeSubtest s rec sequence) := by
  intro w hw
  rw [wp_executeSubtest hw]
  refine wp.mono (h _ _ knows_beginSubtest) ?_ ?_
  · intro r w' hr
    have hend := (hr.toIsolated.ofSubtest hw).endSubtest (i := w.subtestsMade) (b := w.subtestFails rec)
      (r := r) (Nat.le_refl _)
    refine { hend with leaves := fun hcontinue ↦ ?_ }
    have hem : w.emitted ((w'.setCallstack w.callstack).endSubtest w.subtestsMade (w.subtestFails rec) r) =
        ((w.beginSubtest s (w.subtestFails rec)).enter (.subtest w.subtestsMade)).emitted w' ++
          [.subtestRecorded w.subtestsMade (w.subtestFails rec) r (w'.closedRecord w.subtestsMade r)] := by
      apply World.emitted_of_eq
      rw [← List.append_assoc]
      exact congrArg (· ++ _) (World.events_eq hr.events)
    have hleaves := hr.leaves hcontinue
    rw [World.setCallstack_callstack, List.countP_cons_of_neg (by simp [Frame.isBranchSequence])] at hleaves
    rw [hem, List.filterMap_append, List.filterMap_cons_none rfl, List.filterMap_nil, List.append_nil]
    exact hleaves
  · exact fun e w' hr ↦ hr.ofSubtest hw

theorem settles_executePhaseBranch (s : PhaseSequence) (c : DiagnosisCondition) (h : Settles rec [] x) :
    Settles rec [] (executePhaseBranch s c rec td x) := by
  intro w hw
  simp only [wp_executePhaseBranch]
  have hadd (taken : Bool) (w' : World) : Settled rec [] w' .CONTINUE (w'.addBranch s c taken w.run.moment) :=
    settled_setRun (.of_eq rfl rfl)
  split_ifs with hskip
  · exact settled_refl rec w
  all_goals
    have hrun : Settled rec [] w .CONTINUE (w.setRun (RunState.addStep
        (.branchEvaluated s.name w.run.moment w.inBranch) { w.run with moment := w.run.moment + 1 })) :=
      settled_setRun (.of_eq rfl rfl)
    have hevaluating : Settled rec [] w .CONTINUE (w.evaluating s td) :=
      hrun.followed (settled_executing (.sequence s) (executes_of_not_skips hskip)) hw
  · refine wp.mono (h _ hw) ?_ ?_
    · exact fun r w' hr ↦ ((hr.leave rfl rfl).preceded hevaluating hw).followed (hadd true _) hw
    · intro e w' hr
      have hlost : Settled rec [] w' .CONTINUE w'.loseBranch := settled_setRun (.of_eq rfl rfl)
      exact hevaluating.toIsolated.trans ((hr.trans hlost.toIsolated hw).leave rfl) hw
  · exact hevaluating.followed (hadd false _) hw

theorem settles_executePhaseGroup (g : PhaseGroup) {ls lm lt : List PhaseNode}
    {setup main : Executor ExecutorReturn} {teardown : Bool → Executor ExecutorReturn}
    (hs : Settles rec ls setup) (hm : Settles rec lm main) (ht : ∀ b, Settles rec lt (teardown b)) :
    Settles rec (ls ++ (lm ++ lt)) (executePhaseGroup g rec td setup main teardown) := by
  intro w hw
  simp only [wp_executePhaseGroup]
  refine (hs w hw).mono ?_ fun _ _ hr ↦ hr
  intro r w₁ h₁
  split_ifs with hr
  · cases r with
    | CONTINUE => exact absurd rfl hr
    | TERMINAL => exact h₁.toIsolated.terminal
  obtain rfl : r = .CONTINUE := not_not.mp hr
  have hmain : Settled rec [] w₁ .CONTINUE (w₁.addEvent (.groupMain w₁.callstack g td (w₁.subtestFails rec))) :=
    settled_addEvent (by simp [Event.ctx]) rfl fun _ ↦ rfl
  have hw₁ := h₁.knows hw
  refine wp.mono (hm _ hw₁) ?_ fun _ _ hr ↦ h₁.toIsolated.trans (hmain.toIsolated.trans hr hw₁) hw
  intro r' w₂ h₂
  have h₂ := h₂.preceded hmain hw₁
  have hteardown : Settled rec [] w₂ .CONTINUE
      (w₂.addEvent (.groupTeardown w₂.callstack g (!w.skipsTeardown g rec w₁))) :=
    settled_addEvent (by simp [Event.ctx]) rfl fun _ ↦ rfl
  have hw₂ := h₂.knows hw₁
  refine wp.mono (ht _ _ hw₂) ?_ fun _ _ hr ↦
    (h₁.toIsolated.trans h₂.toIsolated hw).trans (hteardown.toIsolated.trans hr hw₂) hw
  intro r'' w₃ h₃
  have h₃ := h₃.preceded hteardown hw₂
  have hdone : Settled rec [] w₃ .CONTINUE (w₃.addEvent (.groupCompleted w₃.callstack g)) :=
    settled_addEvent (by simp [Event.ctx]) rfl fun _ ↦ rfl
  exact (h₁.trans (h₂.trans h₃ hw₁) hw).followed hdone hw

theorem moreCritical_assoc (r r' r'' : ExecutorReturn) :
    moreCritical (moreCritical r r') r'' = moreCritical r (moreCritical r' r'') := by
  cases r <;> rfl

theorem settles_abortableSequence {ns : List PhaseNode}
    (h : ∀ n ∈ ns, ∀ rec td, Settles rec n.leaves (executeNode env exec n rec td)) :
    Settles rec (leavesOf ns) (executeAbortableSequence env exec ns rec) := by
  induction ns with
  | nil => exact fun w _ ↦ settled_refl rec w
  | cons n ns ih =>
      intro w hw
      have ih := ih fun m hm ↦ h m (List.mem_cons_of_mem _ hm)
      simp only [executeAbortableSequence, noteThread, wp_bind, wp_onRun, wp_shared, wp_ite, wp_pure,
        wp_modify]
      split
      · exact (settled_afterShared env Sync.abortIsSet).toIsolated.terminal
      · have hstep : Settled rec [] w .CONTINUE
            (w.afterShared env fun s ↦ ((), s.setStartPending n.isPhaseOrGroup)) := settled_afterShared env _
        refine wp.mono (h n List.mem_cons_self rec false _ hw) ?_ fun _ _ hr ↦ hstep.toIsolated.trans hr hw
        intro r w₁ h₁
        have h₁ := h₁.preceded hstep hw
        split
        · rename_i hr
          cases r with
          | CONTINUE => exact absurd rfl hr
          | TERMINAL => exact h₁.toIsolated.terminal
        · rename_i hr
          obtain rfl : r = .CONTINUE := not_not.mp hr
          refine (ih w₁ (h₁.knows hw)).mono ?_ ?_
          · exact fun r' w₂ h₂ ↦ h₁.trans h₂ hw
          · exact fun e w₂ h₂ ↦ h₁.toIsolated.trans h₂ hw

theorem settles_teardownSequence {ns : List PhaseNode}
    (h : ∀ n ∈ ns, ∀ rec td, Settles rec n.leaves (executeNode env exec n rec td)) :
    Settles rec (leavesOf ns) (executeTeardownSequence env exec ns rec .CONTINUE) := by
  -- The loop has come to `ret` before the nodes that are left.
  suffices hrun : ∀ (ret : ExecutorReturn) (w : World), w.Knows rec →
      wp (executeTeardownSequence env exec ns rec ret)
        (fun r w' ↦ ∃ r', r = moreCritical ret r' ∧ Settled rec (leavesOf ns) w r' w')
        (fun _ ↦ Isolated rec w) w from
    fun w hw ↦ (hrun .CONTINUE w hw).mono (fun _ _ ⟨_, hr, hs⟩ ↦ hr ▸ hs) fun _ _ hr ↦ hr
  induction ns with
  | nil => exact fun ret w _ ↦ ⟨.CONTINUE, (moreCritical_continue_right ret).symm, settled_refl rec w⟩
  | cons n ns ih =>
      intro ret w hw
      have ih := ih fun m hm ↦ h m (List.mem_cons_of_mem _ hm)
      have hstep : Settled rec [] w .CONTINUE (w.afterShared env Sync.fullAbortIsSet) := settled_afterShared env _
      simp only [executeTeardownSequence, wp_bind, wp_onRun, wp_shared, wp_ite, wp_pure]
      split
      · exact ⟨.TERMINAL, (moreCritical_terminal_right ret).symm, hstep.toIsolated.terminal⟩
      · refine wp.mono (h n List.mem_cons_self rec true _ hw) ?_ fun _ _ hr ↦ hstep.toIsolated.trans hr hw
        intro r w₁ h₁
        have h₁ := h₁.preceded hstep hw
        refine (ih (moreCritical ret r) w₁ (h₁.knows hw)).mono ?_ ?_
        · rintro - w₂ ⟨r', rfl, h₂⟩
          exact ⟨moreCritical r r', moreCritical_assoc ret r r', h₁.trans h₂ hw⟩
        · exact fun e w₂ h₂ ↦ h₁.toIsolated.trans h₂ hw

theorem settles_withTeardownPhasesLock (h : Settles rec l x) :
    Settles rec l (withTeardownPhasesLock env x) := by
  intro w hw
  simp only [wp_withTeardownPhasesLock]
  have hacquire : Settled rec [] w .CONTINUE (w.afterShared env Sync.acquireTeardownPhasesLock) :=
    settled_afterShared env _
  have hrelease (w' : World) :
      Settled rec [] w' .CONTINUE (w'.afterShared env Sync.releaseTeardownPhasesLock) := settled_afterShared env _
  refine wp.mono (h _ hw) ?_ ?_
  · exact fun r w' hr ↦ (hr.preceded hacquire hw).followed (hrelease w') hw
  · exact fun e w' hr ↦ (hacquire.toIsolated.trans hr hw).trans (hrelease w').toIsolated hw

theorem settles_enteringGroup (h : Settles rec l x) : Settles rec l (enteringGroup env x) := by
  intro w hw
  simp only [wp_enteringGroup]
  have henter : Settled rec [] w .CONTINUE (w.afterShared env Sync.enterGroup) := settled_afterShared env _
  refine wp.mono (h _ hw) ?_ ?_
  · exact fun r w' hr ↦ hr.preceded henter hw
  · exact fun e w' hr ↦ henter.toIsolated.trans hr hw

/-- The leaves inside a branch are not counted. -/
theorem settles_within_sequence {kind : SequenceKind} {name : Option String} {ns : List PhaseNode}
    (h : Settles rec (leavesOf ns) x) :
    Settles rec (PhaseSequence.mk kind name ns).leaves (within (.sequence (.mk kind name ns)) x) := by
  intro w hw
  simp only [wp_within]
  refine wp.mono (h _ hw) ?_ fun e w' hr ↦ hr.leave rfl
  intro r w' hr
  cases kind with
  | branch c => exact hr.leaveBranch rfl rfl
  | plain => exact hr.leave rfl rfl
  | subtest => exact hr.leave rfl rfl

end Collections

/-! ## The tree -/

section Tree

variable (env : Env)

theorem skipsLast_stopOnFirstFailure (o : PhaseExecutionOutcome) :
    Within SkipsLast (stopOnFirstFailure env o) := by
  refine .ite (fun _ ↦ .bind .gets fun phases ↦ .bind (.modify fun _ ↦ .of_eq rfl rfl) fun _ ↦ ?_)
    fun _ ↦ .pure
  cases phases.getLast? with
  | none => exact .raise
  | some last => exact .pure

theorem settles_executePhase (p : PhaseDescriptor) (rec : Option ℕ) (td : Bool) :
    Settles rec [.phase p] (TestExecutor.executePhase env (phaseExecutor env) p rec td) :=
  settles_executeLeaf (fun r ↦ (phaseFrame_skipPhase env p r).weaken fun _ _ h ↦ h.skipsLast)
    (skipPhase_recorded env p) fun r ↦
      .bind ((phaseFrame_executePhase env p r).weaken fun _ _ h ↦ h.skipsLast) fun o ↦
        .bind (.modify fun _ ↦ .of_eq rfl rfl) fun _ ↦ skipsLast_stopOnFirstFailure env o

theorem settles_executeCheckpoint (c : Checkpoint) (rec : Option ℕ) (td : Bool) :
    Settles rec [.checkpoint c] (TestExecutor.executeCheckpoint (phaseExecutor env) c rec td) :=
  settles_executeLeaf (skipsLast_skipCheckpoint c) (skipCheckpoint_recorded c) (skipsLast_evaluateCheckpoint c)

/-- The execution of a node executes or skips its leaves, if it continues. -/
theorem settles_tree :
    (∀ n rec td, Settles rec n.leaves (executeNode env (phaseExecutor env) n rec td)) ∧
      ∀ s rec td, Settles rec s.leaves (executeSequence env (phaseExecutor env) s rec td) := by
  apply PhaseNode.tree_induction
  case phase => exact fun p rec td ↦ settles_visiting _ (settles_executePhase env p rec td)
  case checkpoint => exact fun c rec td ↦ settles_visiting _ (settles_executeCheckpoint env c rec td)
  case unhandled =>
    refine fun rec td ↦ settles_visiting _ fun w hw ↦ ?_
    simp only [noteStep, wp_bind, wp_onRun, wp_modify, wp_pure]
    have hstep : Settled rec [] w .CONTINUE (w.setRun (w.run.addStep .unhandledNode)) :=
      settled_setRun (.of_eq rfl rfl)
    exact hstep.toIsolated.terminal
  case sequence =>
    intro s hs rec td
    refine settles_visiting _ (settles_reaching s ?_)
    unfold executeSequenceNode
    cases hk : s.kind with
    | plain => exact hs rec td
    | subtest => exact settles_executeSubtest s fun rec ↦ hs rec td
    | branch c =>
        have hnone : s.leaves = [] := by
          obtain ⟨kind, name, ns⟩ := s
          obtain rfl : kind = .branch c := hk
          rfl
        have hs := hs rec td
        rw [hnone] at hs
        have hbranch : Settles rec [] (executePhaseBranch s c rec td
            (executeSequence env (phaseExecutor env) s rec td)) := settles_executePhaseBranch s c hs
        rwa [← hnone] at hbranch
  case group =>
    rintro ⟨setup, main, teardown, name⟩ hs hm ht rec td
    have hpart {o : Option PhaseSequence} (td : Bool)
        (ho : ∀ s ∈ o, ∀ rec td, Settles rec s.leaves (executeSequence env (phaseExecutor env) s rec td)) :
        Settles rec (leavesOfPart o) (executePart env (phaseExecutor env) o rec td) := by
      cases o with
      | none => exact fun w _ ↦ settled_refl rec w
      | some s => exact settles_reaching s (ho s rfl rec td)
    exact settles_visiting _ (settles_enteringGroup
      (settles_executePhaseGroup _ (hpart td hs) (hpart td hm) fun b ↦ hpart b ht))
  case nodes =>
    intro kind name ns hns rec td
    refine settles_within_sequence ?_
    cases td with
    | false => exact settles_abortableSequence hns
    | true => exact settles_withTeardownPhasesLock (settles_teardownSequence hns)

end Tree

end OpenHtf
