import OpenHtf.PhaseTree
import OpenHtf.PlanSemantics

/-!
# Transformations keep the plan

What the machine does with a tree depends on its phases only by what they answer.
So the tree that `apply_to_all_phases` makes of a tree is executed as that tree:
told the same answers, the machine executes and skips the new phases where it
executed and skipped the old ones, and does everything else in the same way.
-/

set_option autoImplicit false

namespace OpenHtf

/-- The state in which the machine has said `l`. -/
def PlanState.setEntries (l : List PlanEntry) (s : PlanState) : PlanState := { s with entries := l }

namespace PhaseTree

open Act

variable {α β γ : Type}

/-! ## Plans that do not look at the phases -/

/-- What the machine says, with a phase of type `α` in the place of the descriptor. -/
inductive TreeEntry (α : Type) where
  | executed (p : α) (inTeardown : Bool) (o : PhaseExecutionOutcome)
  | skipped (p : α)
  | other (e : PlanEntry)

def TreeEntry.entry (d : α → PhaseDescriptor) : TreeEntry α → PlanEntry
  | executed p inTeardown o => .executed (.phase (d p)) inTeardown o
  | skipped p => .skipped (.phase (d p))
  | other e => e

/-- The plan looks neither at what the machine has said nor at what the phases are. -/
def Natural (x : (α → PhaseDescriptor) → Plan β) : Prop :=
  ∀ s : PlanState, ∃ (r : Except Unit β) (s' : PlanState) (es : List (TreeEntry α)),
    ∀ d l, x d (s.setEntries l) = (r, s'.setEntries (l ++ es.map (TreeEntry.entry d)))

section Natural

theorem natural_silent {x : Plan β} (h : ∀ s : PlanState, ∃ (r : Except Unit β) (s' : PlanState),
    ∀ l, x (s.setEntries l) = (r, s'.setEntries l)) : Natural fun _ : α → PhaseDescriptor ↦ x := by
  intro s
  obtain ⟨r, s', h⟩ := h s
  refine ⟨r, s', [], fun d l ↦ ?_⟩
  rw [List.map_nil, List.append_nil]
  exact h l

theorem natural_pure (b : β) : Natural fun _ : α → PhaseDescriptor ↦ (pure b : Plan β) :=
  natural_silent fun s ↦ ⟨.ok b, s, fun _ ↦ rfl⟩

theorem natural_gets {f : PlanState → β} (h : ∀ s l, f (s.setEntries l) = f s) :
    Natural fun _ : α → PhaseDescriptor ↦ (Act.gets f : Plan β) :=
  natural_silent fun s ↦ ⟨.ok (f s), s, fun l ↦ by rw [gets_apply, h]⟩

/-- A change of the state to which an entry is added. -/
theorem natural_modify {f : (α → PhaseDescriptor) → PlanState → PlanState} {g : PlanState → PlanState}
    (e : PlanState → List (TreeEntry α))
    (h : ∀ d s l, f d (s.setEntries l) = (g s).setEntries (l ++ (e s).map (TreeEntry.entry d))) :
    Natural fun d ↦ (Act.modify (f d) : Plan Unit) := fun s ↦
  ⟨.ok (), g s, e s, fun d l ↦ congrArg (Prod.mk _) (h d s l)⟩

theorem Natural.bind {x : (α → PhaseDescriptor) → Plan β} {f : β → (α → PhaseDescriptor) → Plan γ}
    (hx : Natural x) (hf : ∀ b, Natural (f b)) : Natural fun d ↦ x d >>= fun b ↦ f b d := by
  intro s
  obtain ⟨r, s₁, es, h₁⟩ := hx s
  cases r with
  | error e =>
      refine ⟨.error e, s₁, es, fun d l ↦ ?_⟩
      beta_reduce
      rw [bind_apply, h₁, andThen]
  | ok b =>
      obtain ⟨r, s₂, es', h₂⟩ := hf b s₁
      refine ⟨r, s₂, es ++ es', fun d l ↦ ?_⟩
      beta_reduce
      rw [bind_apply, h₁, andThen, h₂, List.map_append, List.append_assoc]

theorem Natural.ite {c : Prop} [Decidable c] {x y : (α → PhaseDescriptor) → Plan β} (hx : Natural x)
    (hy : Natural y) : Natural fun d ↦ if c then x d else y d := by
  by_cases hc : c
  · simpa only [if_pos hc] using hx
  · simpa only [if_neg hc] using hy

theorem natural_aborted : Natural fun _ : α → PhaseDescriptor ↦ Plan.aborted := by
  refine natural_silent fun s ↦ ?_
  obtain ⟨answers, subtest, store, failures, entries, branches⟩ := s
  match answers with
  | .aborted b :: rest => exact ⟨.ok b, ⟨rest, subtest, store, failures, entries, branches⟩, fun _ ↦ rfl⟩
  | .phase o store' failures' :: rest => exact ⟨.error (), _, fun _ ↦ rfl⟩
  | [] => exact ⟨.error (), _, fun _ ↦ rfl⟩

theorem natural_phaseAnswer : Natural fun _ : α → PhaseDescriptor ↦ Plan.phaseAnswer := by
  refine natural_silent fun s ↦ ?_
  obtain ⟨answers, subtest, store, failures, entries, branches⟩ := s
  match answers with
  | .phase o store' failures' :: rest =>
      exact ⟨.ok o, ⟨rest, subtest, store', failures', entries, branches⟩, fun _ ↦ rfl⟩
  | .aborted b :: rest => exact ⟨.error (), _, fun _ ↦ rfl⟩
  | [] => exact ⟨.error (), _, fun _ ↦ rfl⟩

theorem natural_conclude (o : PhaseExecutionOutcome) :
    Natural fun _ : α → PhaseDescriptor ↦ Plan.conclude o := by
  refine .ite (natural_pure _) (.ite (natural_silent fun s ↦ ?_) (natural_pure _))
  obtain ⟨answers, subtest, store, failures, entries, branches⟩ := s
  match subtest with
  | none => exact ⟨.error (), _, fun _ ↦ rfl⟩
  | some (name, _) =>
      exact ⟨.ok .CONTINUE, ⟨answers, some (name, true), store, failures, entries, branches⟩, fun _ ↦ rfl⟩

end Natural

/-! ## The plan of a tree -/

section Trees

variable {td : Bool} {x : (α → PhaseDescriptor) → Plan ExecutorReturn}

theorem natural_leaf {n : (α → PhaseDescriptor) → PhaseNode}
    {skip : (α → PhaseDescriptor) → PlanState → PlanState} {outcome : Plan PhaseExecutionOutcome}
    (hskip : Natural fun d ↦ (Act.modify (skip d) : Plan Unit))
    (houtcome : Natural fun _ : α → PhaseDescriptor ↦ outcome)
    (hended : ∀ o, Natural fun d ↦ (Act.modify (PlanState.addEntry (.executed (n d) td o)) : Plan Unit)) :
    Natural fun d ↦ Plan.leaf (n d) (skip d) outcome td :=
  (natural_gets fun _ _ ↦ rfl).bind fun _ ↦ .ite (hskip.bind fun _ ↦ natural_pure _)
    (houtcome.bind fun o ↦ (hended o).bind fun _ ↦ natural_conclude o)

theorem natural_phase (p : α) : Natural fun d ↦ Plan.phase (d p) td := by
  refine natural_leaf ?_ natural_phaseAnswer fun o ↦ ?_
  · exact natural_modify (g := fun s ↦ { s with failures := s.failures ++ [none] }) (fun _ ↦ [.skipped p])
      fun _ _ _ ↦ rfl
  · exact natural_modify (g := id) (fun _ ↦ [.executed p td o]) fun _ _ _ ↦ rfl

theorem natural_addEntry (e : PlanEntry) :
    Natural fun _ : α → PhaseDescriptor ↦ (Act.modify (PlanState.addEntry e) : Plan Unit) :=
  natural_modify (g := id) (fun _ ↦ [.other e]) fun _ _ _ ↦ rfl

theorem natural_checkpoint (c : Checkpoint) : Natural fun _ : α → PhaseDescriptor ↦ Plan.checkpoint c td :=
  natural_leaf (natural_addEntry _) (natural_gets fun _ _ ↦ rfl) fun _ ↦ natural_addEntry _

theorem natural_subtest (name : Option String) (hx : Natural x) : Natural fun d ↦ Plan.subtest name (x d) := by
  refine (natural_gets fun _ _ ↦ rfl).bind fun outer ↦ .bind ?_ fun _ ↦ hx.bind fun ret ↦ .bind ?_ fun _ ↦
    natural_pure ret
  · exact natural_modify (g := fun s ↦ { s with subtest := some (name, s.subtestFails) }) (fun _ ↦ [])
      fun _ _ _ ↦ by rw [List.map_nil, List.append_nil]; rfl
  · exact natural_modify (g := fun s ↦ { s with subtest := outer })
      (fun s ↦ [.other (.subtest name (some (Plan.subtestOutcome s.subtestFails ret)))]) fun _ _ _ ↦ rfl

theorem natural_branch (name : Option String) (c : DiagnosisCondition) (hx : Natural x) :
    Natural fun d ↦ Plan.branch name c td (x d) := by
  have hadd (taken : Bool) (ret : ExecutorReturn) : Natural fun _ : α → PhaseDescriptor ↦
      (do Act.modify (PlanState.addBranch name c taken); pure ret : Plan ExecutorReturn) := by
    refine .bind (natural_modify (g := PlanState.addBranch name c taken) (fun _ ↦ []) fun _ _ _ ↦ ?_)
      fun _ ↦ natural_pure ret
    rw [List.map_nil, List.append_nil]
    rfl
  exact (natural_gets fun _ _ ↦ rfl).bind fun _ ↦ .ite (natural_pure _)
    ((natural_gets fun _ _ ↦ rfl).bind fun taken ↦ .ite (hx.bind (hadd taken))
      ((natural_pure _).bind (hadd taken)))

theorem natural_group (hasSetup : Bool) {setup main : (α → PhaseDescriptor) → Plan ExecutorReturn}
    {teardown : (α → PhaseDescriptor) → Bool → Plan ExecutorReturn} (hs : Natural setup) (hm : Natural main)
    (ht : ∀ b, Natural fun d ↦ teardown d b) :
    Natural fun d ↦ Plan.group hasSetup (setup d) (main d) (teardown d) :=
  (natural_gets fun _ _ ↦ rfl).bind fun _ ↦ hs.bind fun r ↦ .ite (natural_pure r)
    ((natural_gets fun _ _ ↦ rfl).bind fun _ ↦ hm.bind fun _ ↦ (ht _).bind fun _ ↦ natural_pure _)

variable {ns : List (Node α)} (h : ∀ n ∈ ns, ∀ td, Natural fun d ↦ (n.toPhaseNode d).plan td)

include h

theorem natural_inOrder : Natural fun d ↦ Plan.inOrder (plansOf (toPhaseNodes d ns) td) := by
  induction ns with
  | nil => exact natural_pure _
  | cons n ns ih =>
      exact natural_aborted.bind fun _ ↦ .ite (natural_pure _) ((h n List.mem_cons_self td).bind fun r ↦
        .ite (natural_pure r) (ih fun m hm ↦ h m (List.mem_cons_of_mem _ hm)))

theorem natural_every (ret : ExecutorReturn) :
    Natural fun d ↦ Plan.every (plansOf (toPhaseNodes d ns) td) ret := by
  induction ns generalizing ret with
  | nil => exact natural_pure _
  | cons n ns ih =>
      exact natural_aborted.bind fun _ ↦ .ite (natural_pure _) ((h n List.mem_cons_self td).bind fun r ↦
        ih (fun m hm ↦ h m (List.mem_cons_of_mem _ hm)) _)

end Trees

theorem natural_tree (t : Node α) : ∀ td, Natural fun d ↦ (t.toPhaseNode d).plan td := by
  induction t using Node.tree_induction
      (S := fun s ↦ ∀ td, Natural fun d ↦ (s.toPhaseSequence d).plan td) with
  | phase p => exact fun td ↦ natural_phase p
  | checkpoint c => exact fun td ↦ natural_checkpoint c
  | sequence s h =>
      intro td
      obtain ⟨kind, name, ns⟩ := s
      cases kind with
      | plain => exact h td
      | subtest => exact natural_subtest name (h td)
      | branch c => exact natural_branch name c (h td)
  | group setup main teardown name hsetup hmain hteardown =>
      intro td
      have hpart {o : Option (Sequence α)} (td : Bool)
          (ho : ∀ s ∈ o, ∀ td, Natural fun d ↦ (s.toPhaseSequence d).plan td) :
          Natural fun d ↦ planOfPart (toPhasePart d o) td := by
        cases o with
        | none => exact natural_pure _
        | some s =>
            have hs := ho s rfl td
            simpa only [toPhasePart, planOfPart_some] using hs
      have hsome (d : α → PhaseDescriptor) : (toPhasePart d setup).isSome = setup.isSome := by
        cases setup <;> rfl
      have hgroup := natural_group setup.isSome (hpart td hsetup) (hpart td hmain) fun b ↦ hpart b hteardown
      simpa only [Node.toPhaseNode, Group.toPhaseGroup, PhaseNode.plan, hsome] using hgroup
  | nodes kind name ns h td =>
      cases td with
      | false => exact natural_inOrder h
      | true => exact natural_every h .CONTINUE

/-! ## Two trees of one shape -/

/-- `func` returns, and says what it returned for. -/
def pairing (func : α → Except PyExc β) (p : α) : Except PyExc {q : α × β // Returned func q.1 q.2} :=
  match h : func p with
  | .ok q => .ok ⟨(p, q), h⟩
  | .error e => .error e

theorem pairing_of_returned {func : α → Except PyExc β} {p : α} {q : β} (h : Returned func p q) :
    pairing func p = .ok ⟨(p, q), h⟩ := by
  unfold pairing
  split
  · rename_i q' hq'
    obtain rfl : q = q' := Except.ok.inj (Eq.trans (Eq.symm h) hq')
    rfl
  · rename_i e he
    cases Eq.trans (Eq.symm h) he

theorem pairing_bind (func : α → Except PyExc β) (p : α) :
    (pairing func p >>= fun q ↦ .ok q.1.2) = func p := by
  cases h : func p with
  | ok q =>
      rw [pairing_of_returned h]
      rfl
  | error e =>
      unfold pairing
      split
      · rename_i q' hq'
        cases hq'.symm.trans h
      · rename_i e' he'
        exact he'.symm.trans h

/-- The tree of the pairs of old and new phases. -/
theorem exists_pairs {func : α → Except PyExc β} {t : Node α} {t' : Node β}
    (h : t.applyToAllPhases func = .ok t') :
    ∃ u : Node {q : α × β // Returned func q.1 q.2},
      u.applyToAllPhases (fun q ↦ (.ok q.1.1 : Except PyExc α)) = .ok t ∧
        u.applyToAllPhases (fun q ↦ (.ok q.1.2 : Except PyExc β)) = .ok t' := by
  have hanswers : Answers func t.phases := applyToAllPhases_returns_iff.mp ⟨t', h⟩
  have hsnd : t.applyToAllPhases (fun p ↦ pairing func p >>= fun q ↦ .ok q.1.2) = .ok t' := by
    simpa only [pairing_bind] using h
  obtain ⟨u, hu, hu'⟩ := applyToAllPhases_bind.mpr hsnd
  have hfst : t.applyToAllPhases (fun p ↦ pairing func p >>= fun q ↦ .ok q.1.1) = .ok t := by
    refine applyToAllPhases_eq_ok_iff.mpr ⟨List.forall₂_same.mpr fun p hp ↦ ?_, rfl⟩
    obtain ⟨q, hq⟩ := hanswers p hp
    have hpair := pairing_of_returned hq
    rw [Returned, hpair]
    rfl
  obtain ⟨u', hu₁, hu₂⟩ := applyToAllPhases_bind.mpr hfst
  obtain rfl : u = u' := Except.ok.inj (hu.symm.trans hu₁)
  exact ⟨u, hu₂, hu'⟩

theorem formatName_self (name : Option String) : formatName .ok name = .ok name := by
  cases name <;> rfl

/-- The tree that the executor gets of a tree whose phases were all changed. -/
theorem toPhaseNode_of_applyToAllPhases {f : α → β} {t : Node α} {t' : Node β}
    (h : t.applyToAllPhases (fun p ↦ .ok (f p)) = .ok t') (d : β → PhaseDescriptor) :
    t'.toPhaseNode d = t.toPhaseNode (d ∘ f) := by
  induction t using Node.tree_induction
      (S := fun s ↦ ∀ s', s.traverse (fun p ↦ .ok (f p)) .ok = .ok s' →
        s'.toPhaseSequence d = s.toPhaseSequence (d ∘ f)) generalizing t' with
  | phase p =>
      obtain rfl := Except.ok.inj h
      rfl
  | checkpoint c =>
      obtain rfl := Except.ok.inj h
      rfl
  | sequence s hs =>
      obtain ⟨s', hs', rfl⟩ := Except.map_eq_ok_iff.mp h
      exact congrArg PhaseNode.sequence (hs s' hs')
  | group setup main teardown name hsetup hmain hteardown =>
      have hpart {o : Option (Sequence α)} {o' : Option (Sequence β)}
          (ho : ∀ s ∈ o, ∀ s', s.traverse (fun p ↦ .ok (f p)) .ok = .ok s' →
            s'.toPhaseSequence d = s.toPhaseSequence (d ∘ f))
          (h : traversePart (fun p ↦ .ok (f p)) .ok o = .ok o') : toPhasePart d o' = toPhasePart (d ∘ f) o := by
        cases o with
        | none =>
            obtain rfl := Except.ok.inj h
            rfl
        | some s =>
            obtain ⟨s', hs', rfl⟩ := Except.map_eq_ok_iff.mp h
            exact congrArg some (ho s rfl s' hs')
      obtain ⟨g', hg, rfl⟩ := Except.map_eq_ok_iff.mp h
      simp only [Group.traverse, Except.bind_eq_ok_iff, pure, Except.pure, Except.ok.injEq, formatName_self] at hg
      obtain ⟨setup', hs', main', hm', teardown', ht', _, rfl, rfl⟩ := hg
      simp only [Node.toPhaseNode, Group.toPhaseGroup, hpart hsetup hs', hpart hmain hm', hpart hteardown ht']
  | nodes kind name ns hns s' hs' =>
      have hnodes {ns' : List (Node β)} (h : traverseNodes (fun p ↦ .ok (f p)) .ok ns = .ok ns') :
          toPhaseNodes d ns' = toPhaseNodes (d ∘ f) ns := by
        clear hs'
        induction ns generalizing ns' with
        | nil =>
            obtain rfl := Except.ok.inj h
            rfl
        | cons n ns ih =>
            simp only [traverseNodes, Except.bind_eq_ok_iff, pure, Except.pure, Except.ok.injEq] at h
            obtain ⟨n', hn', ns', hns', rfl⟩ := h
            rw [toPhaseNodes, toPhaseNodes, hns n List.mem_cons_self hn',
              ih (fun m hm ↦ hns m (List.mem_cons_of_mem _ hm)) hns']
      simp only [Sequence.traverse, Except.bind_eq_ok_iff, pure, Except.pure, Except.ok.injEq,
        formatName_self] at hs'
      obtain ⟨ns', hns', _, rfl, rfl⟩ := hs'
      rw [Sequence.toPhaseSequence, Sequence.toPhaseSequence, hnodes hns']

/-- The tree that `apply_to_all_phases` makes is executed as the tree it was made of. -/
theorem applyToAllPhases_plan {func : α → Except PyExc β} {t : Node α} {t' : Node β}
    (h : t.applyToAllPhases func = .ok t') (td : Bool) (s : PlanState) :
    ∃ (r : Except Unit ExecutorReturn) (s' : PlanState)
      (es : List (TreeEntry {q : α × β // Returned func q.1 q.2})), ∀ d d',
      (t.toPhaseNode d).plan td s = (r, s'.setEntries (s.entries ++ es.map (TreeEntry.entry fun q ↦ d q.1.1))) ∧
        (t'.toPhaseNode d').plan td s =
          (r, s'.setEntries (s.entries ++ es.map (TreeEntry.entry fun q ↦ d' q.1.2))) := by
  obtain ⟨u, hfst, hsnd⟩ := exists_pairs h
  obtain ⟨r, s', es, hu⟩ := natural_tree u td s
  refine ⟨r, s', es, fun d d' ↦ ?_⟩
  rw [toPhaseNode_of_applyToAllPhases hfst, toPhaseNode_of_applyToAllPhases hsnd]
  exact ⟨hu _ s.entries, hu _ s.entries⟩

/-- A subtest with a teardown, in which each phase becomes the next one. -/
theorem applyToAllPhases_plan_succ :
    let func (p : ℕ) : Except PyExc ℕ := .ok (p + 1)
    let t : Node ℕ := .sequence (.mk .subtest (some "sub")
      [.phase 0, .group (.mk none (some (.mk .plain none [.phase 1])) (some (.mk .plain none [.phase 2])) none)])
    let t' : Node ℕ := .sequence (.mk .subtest (some "sub")
      [.phase 1, .group (.mk none (some (.mk .plain none [.phase 2])) (some (.mk .plain none [.phase 3])) none)])
    let s : PlanState := { answers := [.aborted false, .phase (.result .FAIL_SUBTEST) {} [some none], .aborted false] }
    ∃ (r : Except Unit ExecutorReturn) (s' : PlanState)
      (es : List (TreeEntry {q : ℕ × ℕ // Returned func q.1 q.2})), ∀ d d',
      (t.toPhaseNode d).plan false s = (r, s'.setEntries (s.entries ++ es.map (TreeEntry.entry fun q ↦ d q.1.1))) ∧
        (t'.toPhaseNode d').plan false s =
          (r, s'.setEntries (s.entries ++ es.map (TreeEntry.entry fun q ↦ d' q.1.2))) := by
  intro func t t' s
  have h : t.applyToAllPhases func = .ok t' := rfl
  exact applyToAllPhases_plan h false s

end PhaseTree

end OpenHtf
