import OpenHtf.TestExecutionOwner

/-!
# Interrupted tests

`handle_sig_int` walks over `TEST_INSTANCES` while tests are entered and taken out.
When it comes to the end of its loop, then it has asked every test that is there to
abort.
-/

set_option autoImplicit false

namespace OpenHtf.TestExecution

/-- The number of places of `TEST_INSTANCES` that a call of `handle_sig_int` is done with. -/
def Frame.behind {τ : Type} (f : Frame τ) : ℕ :=
  match f.pc with
  | .iterating i _ => i
  | .aborting _ _ i _ => i - 1
  | _ => 0

/-- What a call of `handle_sig_int` has done so far. -/
structure Frame.Visited {τ : Type} (instances : List (Option (Option ℕ × τ))) (aborts : List ℕ) (f : Frame τ) :
    Prop where
  since : f.since ≤ aborts.length
  place : f.behind ≤ instances.length
  behind : ∀ j < f.behind, ∀ e t, instances[j]? = some (some (some e, t)) → e ∈ aborts.drop f.since
  here : ∀ p t i n, f.pc = .aborting p t i n → 0 < i ∧ i ≤ instances.length ∧
    ∀ e u, instances[i - 1]? = some (some (some e, u)) → u = t ∧ (p = .releasing → e ∈ aborts.drop f.since)

/-- Tests are entered behind those that were there, and others are taken out. -/
structure Evolves {τ : Type} (is is' : List (Option (Option ℕ × τ))) : Prop where
  length : is.length ≤ is'.length
  kept : ∀ j x, j < is.length → is'[j]? = some (some x) → is[j]? = some (some x)

section Sigint

variable {θ τ : Type} {is is' : List (Option (Option ℕ × τ))} {aborts aborts' : List ℕ}

theorem Evolves.refl (is : List (Option (Option ℕ × τ))) : Evolves is is := ⟨Nat.le_refl _, fun _ _ _ h ↦ h⟩

theorem evolves_append (i : Option (Option ℕ × τ)) : Evolves is (is ++ [i]) where
  length := by simp
  kept j x hj h := by rwa [List.getElem?_append_left hj] at h

theorem evolves_delInstance (uid : Option ℕ) : Evolves is (delInstance uid is) where
  length := by simp [delInstance]
  kept j x hj h := by
    rw [delInstance, List.getElem?_map, List.getElem?_eq_getElem hj] at h
    rw [List.getElem?_eq_getElem hj]
    simp only [Option.map_some, Option.some.injEq] at h ⊢
    split_ifs at h
    exact h

theorem mem_drop_of_prefix {n e : ℕ} (h : aborts <+: aborts') (he : e ∈ aborts.drop n) : e ∈ aborts'.drop n := by
  obtain ⟨l, rfl⟩ := h
  rw [List.drop_append]
  exact List.mem_append_left _ he

/-- What others do in the meantime. -/
theorem Frame.Visited.mono {f : Frame τ} (h : f.Visited is aborts) (his : Evolves is is')
    (haborts : aborts <+: aborts') : f.Visited is' aborts' where
  since := Nat.le_trans h.since haborts.length_le
  place := Nat.le_trans h.place his.length
  behind j hj e t he :=
    mem_drop_of_prefix haborts (h.behind j hj e t (his.kept j _ (Nat.lt_of_lt_of_le hj h.place) he))
  here p t i n hf := by
    obtain ⟨hi, hlength, hhere⟩ := h.here p t i n hf
    refine ⟨hi, Nat.le_trans hlength his.length, fun e u he ↦ ?_⟩
    have hlt : i - 1 < is.length := by omega
    obtain ⟨hu, hp⟩ := hhere e u (his.kept _ _ hlt he)
    exact ⟨hu, fun hrel ↦ mem_drop_of_prefix haborts (hp hrel)⟩

theorem getElem?_places (is : List (Option (Option ℕ × τ))) (i l : ℕ) :
    (is.zipIdx.drop i)[l]? = is[i + l]?.map fun x ↦ (x, i + l) := by
  rw [List.getElem?_drop, List.getElem?_zipIdx, Nat.zero_add]

/-- The places that the iterator passes over are empty. -/
theorem nextInstance_eq_some {i j : ℕ} {t : τ} (h : nextInstance is i = some (t, j)) :
    ∃ uid m, j = m + 1 ∧ i ≤ m ∧ is[m]? = some (some (uid, t)) ∧
      ∀ l x, i ≤ l → l < m → is[l]? = some x → x = none := by
  obtain ⟨l₁, ⟨x, m⟩, l₂, hsplit, hx, hpassed⟩ := List.findSome?_eq_some_iff.mp h
  obtain ⟨⟨uid, u⟩, rfl, hq⟩ := Option.map_eq_some_iff.mp hx
  cases hq
  have hplace : (is.zipIdx.drop i)[l₁.length]? = some (some (uid, u), m) := by simp [hsplit]
  rw [getElem?_places] at hplace
  obtain ⟨y, hy, heq⟩ := Option.map_eq_some_iff.mp hplace
  cases heq
  refine ⟨uid, _, rfl, Nat.le_add_right i _, hy, fun l x hil hlm hlx ↦ ?_⟩
  have hl₁ : l - i < l₁.length := by omega
  have hget : (is.zipIdx.drop i)[l - i]? = some (x, l) := by
    rw [getElem?_places, Nat.add_sub_cancel' hil, hlx]
    rfl
  rw [hsplit, List.getElem?_append_left hl₁] at hget
  have hnone := hpassed _ (List.mem_of_getElem? hget)
  simpa using hnone

theorem nextInstance_eq_none {i : ℕ} (h : nextInstance is i = none) {l : ℕ} {x : Option (Option ℕ × τ)}
    (hil : i ≤ l) (hx : is[l]? = some x) : x = none := by
  have hget : (is.zipIdx.drop i)[l - i]? = some (x, l) := by
    rw [getElem?_places, Nat.add_sub_cancel' hil, hx]
    rfl
  have hnone := List.findSome?_eq_none_iff.mp h _ (List.mem_of_getElem? hget)
  simpa using hnone

/-! ## What others do -/

variable [DecidableEq θ] [DecidableEq τ] {callbacks : τ → ℕ} {s s' : State θ τ} {k main : θ} {t : τ}

/-- `TEST_INSTANCES`, the calls of `abort` and those of `handle_sig_int`, before and after. -/
structure Onward (s s' : State θ τ) : Prop where
  instances : Evolves s.instances s'.instances
  aborts : s.aborts <+: s'.aborts
  frames : ∀ f ∈ s'.frames, f ∈ s.frames

omit [DecidableEq θ] [DecidableEq τ] in
theorem onward_of_eq (hinstances : s'.instances = s.instances) (haborts : s'.aborts = s.aborts)
    (hframes : s'.frames = s.frames) : Onward s s' where
  instances := hinstances ▸ .refl _
  aborts := haborts ▸ List.prefix_rfl
  frames _ hf := hframes ▸ hf

theorem onward_raiseIn (s : State θ τ) (k : θ) (keyboard : Bool) : Onward s (s.raiseIn k keyboard) := by
  unfold State.raiseIn
  split
  · exact onward_of_eq rfl rfl rfl
  · exact onward_of_eq rfl rfl rfl

theorem onward_sectionStep {abort : Bool} {h : Holder θ} {p : Section} {r : Result θ τ}
    (hr : sectionStep abort h t s p = some r) : Onward s (r.resume k t s) := by
  obtain ⟨rfl, -, rfl⟩ | ⟨rfl, rfl⟩ | ⟨-, -, rfl | rfl⟩ | ⟨e, -, -, rfl | ⟨p', -, -, rfl⟩⟩ := sectionStep_cases hr
  · exact onward_of_eq rfl rfl rfl
  · exact onward_of_eq rfl rfl rfl
  · exact onward_raiseIn s k false
  · exact onward_of_eq rfl rfl rfl
  · exact ⟨.refl _, List.prefix_append _ _, fun _ hf ↦ hf⟩
  · exact onward_of_eq rfl rfl rfl

theorem onward_stageStep (hinv : OwnInv callbacks s) {p : Stage} {e : ℕ} {x : Bool}
    (hk : s.pc k = .owning p t e x) (hstep : stageStep callbacks k t e x s p = some s') : Onward s s' := by
  have hexecutor := hinv.executor k p t e x hk
  cases p with
  | registering =>
      obtain rfl := Option.some.inj hstep
      have hnew : setInstance (s.executor t) t s.instances = s.instances ++ [some (some e, t)] :=
        hinv.setInstance_eq hk
      refine ⟨?_, List.prefix_rfl, fun _ hf ↦ hf⟩
      change Evolves s.instances (setInstance (s.executor t) t s.instances)
      rw [hnew]
      exact evolves_append _
  | starting | finalizing =>
      simp only [stageStep, withExecutor_of_some hexecutor, Option.some.injEq] at hstep
      subst hstep
      exact onward_of_eq rfl rfl rfl
  | unlocking | started =>
      obtain rfl := Option.some.inj hstep
      exact onward_of_eq rfl rfl rfl
  | waiting | interrupted | closing =>
      simp only [stageStep, withExecutor_of_some hexecutor, Option.ite_none_right_eq_some,
        Option.some.injEq] at hstep
      obtain ⟨-, rfl⟩ := hstep
      exact onward_of_eq rfl rfl rfl
  | outputting n =>
      obtain rfl := Option.some.inj hstep
      split
      · exact onward_of_eq rfl rfl rfl
      · exact onward_of_eq rfl rfl rfl
  | deleting =>
      obtain rfl := Option.some.inj hstep
      split
      · exact ⟨evolves_delInstance _, List.prefix_rfl, fun _ hf ↦ hf⟩
      · exact onward_raiseIn s k false
  | clearing =>
      obtain rfl := Option.some.inj hstep
      cases x
      · exact onward_of_eq rfl rfl rfl
      · exact onward_of_eq rfl rfl rfl

theorem onward_codeStep (hinv : OwnInv callbacks s) (hstep : codeStep callbacks k s = some s') : Onward s s' := by
  unfold codeStep at hstep
  cases hpc : s.pc k with
  | idle => simp [hpc] at hstep
  | state p u =>
      simp only [hpc, Option.map_eq_some_iff] at hstep
      obtain ⟨r, hr, rfl⟩ := hstep
      exact onward_sectionStep hr
  | acquiring u =>
      simp only [hpc, Option.ite_none_right_eq_some, Option.some.injEq] at hstep
      obtain ⟨-, rfl⟩ := hstep
      exact onward_of_eq rfl rfl rfl
  | checking u =>
      simp only [hpc, Option.some.injEq] at hstep
      subst hstep
      split
      · exact onward_of_eq rfl rfl rfl
      · exact onward_raiseIn s k false
  | creating u =>
      simp only [hpc, Option.some.injEq] at hstep
      subst hstep
      exact onward_of_eq rfl rfl rfl
  | owning p u e raised =>
      simp only [hpc] at hstep
      exact onward_stageStep hinv hpc hstep

/-! ## What the handler does -/

/-- Every call of `handle_sig_int` has done what it should have. -/
def FrameInv (s : State θ τ) : Prop := ∀ f ∈ s.frames, f.Visited s.instances s.aborts

omit [DecidableEq θ] [DecidableEq τ] in
theorem FrameInv.mono (h : FrameInv s) (hon : Onward s s') : FrameInv s' :=
  fun f hf ↦ (h f (hon.frames f hf)).mono hon.instances hon.aborts

omit [DecidableEq θ] [DecidableEq τ] in
/-- The call of `handle_sig_int` on top moves on. -/
theorem FrameInv.setTop (h : FrameInv s) {f g : Frame τ} {rest : List (Frame τ)} (hframes : s.frames = f :: rest)
    (hs' : s'.frames = g :: rest) (hinstances : s'.instances = s.instances) (haborts : s.aborts <+: s'.aborts)
    (hg : g.Visited s'.instances s'.aborts) : FrameInv s' := by
  intro f' hf'
  rw [hs', List.mem_cons] at hf'
  obtain rfl | hf' := hf'
  · exact hg
  · exact (h f' (by simp [hframes, hf'])).mono (hinstances ▸ .refl _) haborts

theorem frameInv_raiseMain (s : State θ τ) (main : θ) (keyboard : Bool) : FrameInv (raiseMain main keyboard s) := by
  have hframes : (raiseMain main keyboard s).frames = [] := by
    unfold raiseMain State.raiseIn
    split <;> rfl
  simp [FrameInv, hframes]

omit [DecidableEq τ] in
/-- The call of `handle_sig_int` comes to an entry. -/
theorem visited_next {f : Frame τ} {i n j : ℕ} (hf : f.Visited is aborts) (hpc : f.pc = .iterating i n)
    (hnext : nextInstance is i = some (t, j)) :
    Frame.Visited is aborts { f with pc := .aborting .acquiring t j n } := by
  obtain ⟨uid, m, rfl, him, hm, hpassed⟩ := nextInstance_eq_some hnext
  have hlt : m < is.length := (List.getElem?_eq_some_iff.mp hm).1
  have hbehind : f.behind = i := by rw [Frame.behind, hpc]
  constructor
  · exact hf.since
  · exact Nat.le_of_lt hlt
  · intro l hl e u he
    by_cases hli : l < i
    · exact hf.behind l (hbehind ▸ hli) e u he
    · have := hpassed l _ (Nat.le_of_not_lt hli) hl he
      cases this
  · intro p u i' n' hpc'
    cases hpc'
    refine ⟨Nat.succ_pos m, hlt, fun e u he ↦ ?_⟩
    rw [Nat.add_sub_cancel, hm] at he
    cases he
    exact ⟨rfl, by simp⟩

omit [DecidableEq τ] in
/-- In the section of a test. -/
theorem visited_section {f : Frame τ} {p p' : Section} {i n : ℕ} (hf : f.Visited is aborts)
    (hpc : f.pc = .aborting p t i n) (haborts : aborts <+: aborts')
    (hrel : p' = .releasing → ∀ e, is[i - 1]? = some (some (some e, t)) → e ∈ aborts'.drop f.since) :
    Frame.Visited is aborts' { f with pc := .aborting p' t i n } := by
  obtain ⟨hi, hlength, hhere⟩ := hf.here p t i n hpc
  have hbehind : f.behind = i - 1 := by rw [Frame.behind, hpc]
  constructor
  · exact Nat.le_trans hf.since haborts.length_le
  · exact Nat.le_trans (Nat.sub_le i 1) hlength
  · exact fun j hj e u he ↦ mem_drop_of_prefix haborts (hf.behind j (hbehind ▸ hj) e u he)
  · intro q u i' n' hpc'
    cases hpc'
    refine ⟨hi, hlength, fun e u he ↦ ?_⟩
    obtain ⟨rfl, -⟩ := hhere e u he
    exact ⟨rfl, fun hq ↦ hrel hq e he⟩

theorem frameInv_handlerStep (h : FrameInv s) (hinv : OwnInv callbacks s) {f : Frame τ} {rest : List (Frame τ)}
    (hframes : s.frames = f :: rest) (hstep : handlerStep main s f rest = some s') : FrameInv s' := by
  have hf : f.Visited s.instances s.aborts := h f (by simp [hframes])
  unfold handlerStep at hstep
  cases hpc : f.pc with
  | entered =>
      simp only [hpc, Option.some.injEq] at hstep
      subst hstep
      split
      · exact frameInv_raiseMain s main true
      · refine h.setTop hframes rfl rfl List.prefix_rfl ⟨hf.since, Nat.zero_le _, ?_, by simp⟩
        exact fun j hj ↦ absurd hj (Nat.not_lt_zero j)
  | iterating i n =>
      simp only [hpc, Option.some.injEq] at hstep
      subst hstep
      split
      · exact frameInv_raiseMain s main false
      · split
        · refine h.setTop hframes rfl rfl List.prefix_rfl ⟨hf.since, Nat.zero_le _, ?_, by simp⟩
          exact fun j hj ↦ absurd hj (Nat.not_lt_zero j)
        · rename_i u j hnext
          exact h.setTop hframes rfl rfl List.prefix_rfl (visited_next hf hpc hnext)
  | aborting p u i n =>
      simp only [hpc, Option.map_eq_some_iff] at hstep
      obtain ⟨r, hr, rfl⟩ := hstep
      obtain ⟨rfl, -, rfl⟩ | ⟨rfl, rfl⟩ | ⟨-, hnone, rfl | rfl⟩ | ⟨e, -, hsome, rfl | ⟨p', -, hp', rfl⟩⟩ :=
        sectionStep_cases hr
      · exact h.setTop hframes rfl rfl List.prefix_rfl
          (visited_section hf hpc List.prefix_rfl (by simp))
      · obtain ⟨hi, hlength, hhere⟩ := hf.here _ u i n hpc
        refine h.setTop hframes rfl rfl List.prefix_rfl ⟨hf.since, hlength, fun j hj e v he ↦ ?_, by simp⟩
        by_cases hji : j = i - 1
        · subst hji
          exact (hhere e v he).2 rfl
        · have hbehind : f.behind = i - 1 := by rw [Frame.behind, hpc]
          have hj : j < i := hj
          exact hf.behind j (by omega) e v he
      · exact frameInv_raiseMain s main false
      · refine h.setTop hframes rfl rfl List.prefix_rfl
          (visited_section hf hpc List.prefix_rfl fun _ e he ↦ ?_)
        -- What is entered has an executor.
        obtain ⟨e', -, he'⟩ := hinv.instances _ u (List.mem_of_getElem? he)
        rw [hnone] at he'
        cases he'
      · refine h.setTop hframes rfl rfl (List.prefix_append _ _)
          (visited_section hf hpc (List.prefix_append _ _) fun _ e' he' ↦ ?_)
        obtain ⟨e'', heq, he''⟩ := hinv.instances _ u (List.mem_of_getElem? he')
        obtain rfl := Option.some.inj heq
        obtain rfl := Option.some.inj (hsome.symm.trans he'')
        change e ∈ (s.aborts ++ [e]).drop f.since
        rw [List.drop_append_of_le_length hf.since]
        simp
      · exact h.setTop hframes rfl rfl List.prefix_rfl
          (visited_section hf hpc List.prefix_rfl fun hrel ↦ absurd hrel (hp' rfl))
  | looped =>
      simp only [hpc, Option.some.injEq] at hstep
      subst hstep
      split
      · exact h.mono ⟨.refl _, List.prefix_rfl, fun g hg ↦ by simpa [hframes] using .inr hg⟩
      · exact frameInv_raiseMain _ main true

theorem frameInv_step {a : Action θ τ} (h : FrameInv s) (hinv : OwnInv callbacks s)
    (hstep : step main callbacks s a = some s') : FrameInv s' := by
  cases a with
  | execute k u | state k u =>
      simp only [step, Option.ite_none_right_eq_some, Option.some.injEq] at hstep
      obtain ⟨-, rfl⟩ := hstep
      exact h
  | step k =>
      simp only [step, Option.ite_none_left_eq_some] at hstep
      exact h.mono (onward_codeStep hinv hstep.2)
  | raise k =>
      simp only [step, Option.ite_none_left_eq_some, Option.some.injEq] at hstep
      obtain ⟨-, rfl⟩ := hstep
      exact h.mono (onward_raiseIn s k false)
  | finish e passed =>
      simp only [step, Option.ite_none_right_eq_some, Option.some.injEq] at hstep
      obtain ⟨-, rfl⟩ := hstep
      exact h
  | sigint =>
      obtain rfl := Option.some.inj hstep
      intro f hf
      obtain rfl | hf := List.mem_cons.mp hf
      · exact ⟨Nat.le_refl _, Nat.zero_le _, fun j hj ↦ absurd hj (Nat.not_lt_zero j), by simp⟩
      · exact h f hf
  | handler =>
      simp only [step] at hstep
      split at hstep
      · cases hstep
      · rename_i f rest hframes
        exact frameInv_handlerStep h hinv hframes hstep

/-! ## Every run -/

variable {as : List (Action θ τ)}

theorem frameInv_run (hrun : runActions (step main callbacks) as {} = some s) :
    OwnInv callbacks s ∧ FrameInv s :=
  (run_invariant (I := fun s ↦ s.Locked ∧ OwnInv callbacks s ∧ FrameInv s) (C := fun _ _ ↦ True)
    (fun _ _ _ h _ hstep ↦ ⟨locked_step h.1 hstep, ownInv_step h.2.1 h.1 hstep, frameInv_step h.2.2 h.2.1 hstep⟩)
    ⟨locked_initial, ownInv_initial callbacks, by simp [FrameInv]⟩ (runMeets_of_forall (fun _ _ _ ↦ trivial) _)
    hrun).2

end Sigint

end OpenHtf.TestExecution
