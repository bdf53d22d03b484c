import OpenHtf.Assignment
import OpenHtf.TreeInvariant

/-!
# What runs inside a teardown

Whatever is executed below a node that is executed as a part of a teardown is
executed as a part of a teardown too, and so is not skipped.  The exception is
the teardown of a group whose subtest has failed by the time its main starts:
the group decides anew from the record of the subtest.
-/

set_option autoImplicit false

namespace OpenHtf

open Act TestExecutor

/-- `_execute_node` with `in_teardown`. -/
def Frame.isTeardown : Frame → Bool
  | .node inTeardown => inTeardown
  | _ => false

/-- A phase or a checkpoint is skipped inside a node that is in teardown. -/
def Event.skipsInTeardown : Event → Bool
  | .skipped ctx _ _ _ => ctx.any Frame.isTeardown
  | _ => false

/-- A group with a teardown is in teardown, and its subtest has failed by the
time its main starts. -/
def Event.failedGroupInTeardown : Event → Bool
  | .groupMain _ g inTeardown failed => g.teardown.isSome && inTeardown && failed
  | _ => false

/-- No group in teardown has met a failed subtest so far. -/
def World.NoFailedGroup (w : World) : Prop := ∀ e ∈ w.events, e.failedGroupInTeardown = false

/-- So far nothing was skipped inside a teardown. -/
def World.TeardownInherited (w : World) : Prop := ∀ e ∈ w.events, e.skipsInTeardown = false

theorem World.NoFailedGroup.before {w w' : World} (h : w'.NoFailedGroup)
    (hp : w.events <+: w'.events) : w.NoFailedGroup := fun e he ↦ h e (hp.subset he)

/-- An event that is no skip inside a teardown. -/
theorem teardownInherited_addEvent {w w' : World} {e : Event} (he : w'.events = w.events ++ [e])
    (hskip : w.NoFailedGroup → e.skipsInTeardown = false)
    (hi : w.NoFailedGroup → w.TeardownInherited) (h : w'.NoFailedGroup) : w'.TeardownInherited := by
  have h := h.before (he ▸ List.prefix_append _ _)
  intro e' he'
  rw [he] at he'
  rcases List.mem_append.mp he' with he' | he'
  · exact hi h e' he'
  · rw [List.mem_singleton.mp he']
    exact hskip h

theorem teardown_inherited (env : Env) (exec : PhaseExecutor) :
    TreeInvariant env exec (fun _ ↦ True) (fun _ _ ↦ True)
      (fun w ↦ w.NoFailedGroup → w.TeardownInherited)
      fun _ td w ↦ w.NoFailedGroup → w.callstack.any Frame.isTeardown = true → td = true where
  refl _ := trivial
  kept := runKept_any env exec
  same {w w'} he _ _ _ hi h := by
    rw [World.TeardownInherited, he]
    rw [World.NoFailedGroup, he] at h
    exact hi h
  frame _ hf hat h hstack := hat (h.before hf.events) (hf.callstack ▸ hstack)
  event {rec td w e} _ hat he hi := by
    refine teardownInherited_addEvent rfl (fun h ↦ ?_) hi
    cases he with
    | skipped n first next hv htd hfail =>
        rw [Event.skipsInTeardown, Bool.eq_false_iff]
        intro hstack
        exact absurd (hat h hstack) (by simp [htd])
    | _ => rfl
  fail _ _ hi := teardownInherited_addEvent rfl (fun _ ↦ rfl) hi
  node {rec td w} hat h hstack := by
    rcases Bool.or_eq_true_iff.mp hstack with htd | hstack
    · exact htd
    · exact hat h hstack
  sequence hat _ := hat
  teardown {rec td w g failed skip} hg hat hmem hskip h hstack := by
    have hgroup := h _ hmem
    rw [Event.failedGroupInTeardown, hg, hat h hstack] at hgroup
    rw [hskip hgroup]
    rfl
  branch _ hat := hat
  branched _ _ _ _ hi := teardownInherited_addEvent rfl (fun _ ↦ rfl) hi
  begin _ hat hi := ⟨hi, hat⟩
  done {rec td w w' s ret} _ _ _ _ _ hi := by
    have hend : ((w'.setCallstack w.callstack).endSubtest w.subtestsMade (w.subtestFails rec)
        ret).NoFailedGroup → _ := teardownInherited_addEvent rfl (fun _ ↦ rfl) hi
    exact teardownInherited_addEvent rfl (fun _ ↦ rfl) hend

/-- In every run in which no group in teardown meets a failed subtest, no phase
or checkpoint inside a teardown is skipped. -/
theorem teardown_context_inherited (env : Env) (exec : PhaseExecutor) (s : PhaseSequence) {w : World}
    (hw : w.events = []) (hstack : w.callstack = [])
    (h : (executeNode env exec (.sequence s) none false w).2.NoFailedGroup) :
    (executeNode env exec (.sequence s) none false w).2.TeardownInherited := by
  have hknows : w.Knows none := nofun
  have hnone : w.TeardownInherited := by simp [World.TeardownInherited, hw]
  refine wp_same.mp ((teardown_inherited env exec).executeNode (fun _ _ ↦ trivial) hknows ?_ ?_) h
  · intro _ htd
    simp [hstack] at htd
  · exact fun _ ↦ hnone

/-- A group in the teardown of another one, in a subtest that does not fail. -/
theorem teardown_context_inherited_nested :
    (executeNode {} (.oracle (fun _ ↦ .result .CONTINUE) fun _ ↦ .timeout)
      (.sequence (.mk .plain none [.sequence (.mk .subtest none [.group (.new .none
        (.nodes [.phase { id := 0, name := "main" }])
        (.nodes [.group (.new .none (.nodes [.phase { id := 1, name := "inner main" }])
          (.nodes [.phase { id := 2, name := "inner teardown" }]))]))])]))
      none false {}).2.TeardownInherited :=
  teardown_context_inherited _ _ _ rfl rfl (by unfold World.NoFailedGroup; decide +kernel)

/-- When the main of the outer group fails the subtest, the inner group runs its
main but not its teardown. -/
theorem not_teardownInherited_nested :
    let w := (executeNode {} (phaseExecutor {})
      (.sequence (.mk .plain none [.sequence (.mk .subtest none [.group (.new .none
        (.nodes [.phase
          { id := 0, name := "main", func := fun _ ↦ { ends := .returned (some .FAIL_SUBTEST) } }])
        (.nodes [.group (.new .none (.nodes [.phase { id := 1, name := "inner main" }])
          (.nodes [.phase { id := 2, name := "inner teardown" }]))]))])]))
      none false {}).2
    w.run.testRecord.phases.map (·.outcome) = [some .FAIL, some .PASS, some .SKIP] ∧
      ¬w.TeardownInherited := by
  unfold World.TeardownInherited
  decide +kernel

end OpenHtf
