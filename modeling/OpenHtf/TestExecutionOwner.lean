import OpenHtf.TestExecution

/-!
# Calls of `execute` and their executors

A call of `execute` that has made its executor is alone with it to its end, whatever
other threads do: it starts it, waits for it, finalises it, gives its record to every
output callback and closes it, in this order.  What can keep a test from being executed
again.
-/

set_option autoImplicit false

namespace OpenHtf.TestExecution

/-- All that `execute` does with an executor, for `m` output callbacks. -/
def lifecycle (m : ℕ) : List Call :=
  [.start, .wait, .finalize] ++ (List.range m).map .output ++ [.close]

/-- What `execute` has done with its executor when it comes to a stage, if nothing was raised. -/
def Stage.before (m : ℕ) : Stage → List Call
  | .registering | .starting => []
  | .unlocking | .started | .waiting | .interrupted => [.start]
  | .finalizing => [.start, .wait]
  | .outputting n => [.start, .wait, .finalize] ++ ((List.range m).take n).map .output
  | .deleting | .closing => [.start, .wait, .finalize] ++ (List.range m).map .output
  | .clearing => lifecycle m

/-- The test is not in `TEST_INSTANCES`, yet or any more. -/
def Stage.unlisted : Stage → Bool
  | .registering | .closing | .clearing => true
  | _ => false

/-- The test on which a call of `execute` is that has made its executor. -/
def Pc.owns {τ : Type} : Pc τ → Option τ
  | .owning _ t _ _ => some t
  | _ => none

/-- What a call of `execute` on the test `t` has done with the executor `ex` at a stage. -/
structure Execution.At {τ : Type} (callbacks : τ → ℕ) (p : Stage) (t : τ) (raised : Bool) (ex : Execution τ) :
    Prop where
  test : ex.test = t
  sublist : ex.calls.Sublist (p.before (callbacks t))
  calls : raised = false → ex.calls = p.before (callbacks t)
  done : p = .clearing → ex.done = true

section Owner

variable {θ τ : Type}

/-- A call of `execute` works on the executor that it made, and no other call does. -/
structure OwnInv (callbacks : τ → ℕ) (s : State θ τ) : Prop where
  executor : ∀ k p t e x, s.pc k = .owning p t e x → s.executor t = some e
  stage : ∀ k p t e x, s.pc k = .owning p t e x → ∃ ex, s.executions[e]? = some ex ∧ ex.At callbacks p t x
  unique : ∀ k k' t, (s.pc k).owns = some t → (s.pc k').owns = some t → k = k'
  creating : ∀ k t, s.pc k = .creating t → s.executor t = none
  tests : ∀ t e, s.executor t = some e → ∃ ex, s.executions[e]? = some ex ∧ ex.test = t
  instances : ∀ uid t, some (uid, t) ∈ s.instances → ∃ e, uid = some e ∧ s.executor t = some e
  unlisted : ∀ k p t e x, s.pc k = .owning p t e x → p.unlisted = true → ∀ uid, some (uid, t) ∉ s.instances
  listed : ∀ k p t e x, s.pc k = .owning p t e x → p.unlisted = false → some (some e, t) ∈ s.instances
  free : ∀ ex ∈ s.executions, ex.calls.Sublist (lifecycle (callbacks ex.test))
  returned : ∀ e b, (e, b) ∈ s.returned → (∀ t, s.executor t ≠ some e) ∧
    ∃ ex, s.executions[e]? = some ex ∧ ex.calls = lifecycle (callbacks ex.test) ∧ ex.done = true ∧ ex.passed = b

theorem ownInv_initial (callbacks : τ → ℕ) : OwnInv callbacks ({} : State θ τ) := by
  constructor <;> simp [Pc.owns]

theorem outputs_sublist (m n : ℕ) :
    (((List.range m).take n).map Call.output).Sublist ((List.range m).map .output) :=
  (List.take_sublist n _).map _

theorem Stage.before_sublist (m : ℕ) (p : Stage) : (p.before m).Sublist (lifecycle m) := by
  cases p with
  | outputting n =>
      exact ((outputs_sublist m n).append_left _).trans (List.sublist_append_left _ _)
  | deleting | closing => exact List.sublist_append_left _ _
  | _ => simp [before, lifecycle]

/-- A stage that a call can come to from another without a call on its executor. -/
structure Follows (m : ℕ) (p : Stage) (raised : Bool) (p' : Stage) (raised' : Bool) : Prop where
  sublist : (p.before m).Sublist (p'.before m)
  exact : raised' = false → raised = false ∧ p.before m = p'.before m
  unlisted : p'.unlisted = p.unlisted
  clearing : p' ≠ .clearing

/-- An exception takes a call of `execute` on in its `finally` clauses. -/
theorem follows_raised {keyboard : Bool} {pc : Pc τ} {p' : Stage} {t : τ} {e : ℕ} {x' : Bool} (m : ℕ)
    (h : pc.raised keyboard = .owning p' t e x') :
    ∃ p x, pc = .owning p t e x ∧ Follows m p x p' x' := by
  unfold Pc.raised at h
  split at h
  · rename_i p t₁ e₁ x
    split at h <;> cases h
    · refine ⟨_, x, rfl, ?_⟩
      cases keyboard <;> constructor <;> simp [Stage.before, Stage.unlisted]
    · exact ⟨_, x, rfl, by constructor <;> simp [Stage.before, Stage.unlisted]⟩
    · exact ⟨_, x, rfl, by constructor <;> simp [Stage.before, Stage.unlisted]⟩
    · rename_i n
      exact ⟨_, x, rfl, (outputs_sublist m n).append_left _, by simp, rfl, by simp⟩
  · cases h

variable {callbacks : τ → ℕ} {s s' : State θ τ}

theorem Execution.At.follow {p p' : Stage} {t : τ} {x x' : Bool} {ex : Execution τ} (h : ex.At callbacks p t x)
    (hf : Follows (callbacks t) p x p' x') : ex.At callbacks p' t x' where
  test := h.test
  sublist := h.sublist.trans hf.sublist
  calls hx := (h.calls (hf.exact hx).1).trans (hf.exact hx).2
  done hp := absurd hp hf.clearing

variable [DecidableEq θ] {k : θ} {pc' : Pc τ}

/-- The code of a thread goes on without a call on an executor. -/
theorem OwnInv.move (h : OwnInv callbacks s) (hexecutor : s'.executor = s.executor)
    (hexecutions : s'.executions = s.executions) (hinstances : s'.instances = s.instances)
    (hreturned : s'.returned = s.returned) (hpc : s'.pc = Function.update s.pc k pc')
    (hcreating : ∀ t, pc' = .creating t → s.executor t = none)
    (howning : ∀ p' t e x', pc' = .owning p' t e x' →
      ∃ p x, s.pc k = .owning p t e x ∧ Follows (callbacks t) p x p' x') :
    OwnInv callbacks s' := by
  have hfrom {j : θ} {p' : Stage} {t : τ} {e : ℕ} {x' : Bool} (hj : s'.pc j = .owning p' t e x') :
      ∃ p x, s.pc j = .owning p t e x ∧ (Follows (callbacks t) p x p' x' ∨ p = p' ∧ x = x') := by
    rw [hpc] at hj
    by_cases hjk : j = k
    · subst hjk
      rw [Function.update_self] at hj
      obtain ⟨p, x, hpx, hf⟩ := howning p' t e x' hj
      exact ⟨p, x, hpx, .inl hf⟩
    · rw [Function.update_of_ne hjk] at hj
      exact ⟨p', x', hj, .inr ⟨rfl, rfl⟩⟩
  have howns {j : θ} {t : τ} (hj : (s'.pc j).owns = some t) : (s.pc j).owns = some t := by
    cases hpcj : s'.pc j with
    | owning p' u e x' =>
        obtain ⟨p, x, hpx, -⟩ := hfrom hpcj
        rw [hpcj] at hj
        rw [hpx]
        exact hj
    | _ =>
        rw [hpcj] at hj
        cases hj
  constructor
  · intro j p' t e x' hj
    obtain ⟨p, x, hpx, -⟩ := hfrom hj
    rw [hexecutor]
    exact h.executor j p t e x hpx
  · intro j p' t e x' hj
    obtain ⟨p, x, hpx, hf⟩ := hfrom hj
    obtain ⟨ex, hex, hat⟩ := h.stage j p t e x hpx
    refine ⟨ex, hexecutions ▸ hex, ?_⟩
    obtain hf | ⟨rfl, rfl⟩ := hf
    · exact hat.follow hf
    · exact hat
  · exact fun j j' t hj hj' ↦ h.unique j j' t (howns hj) (howns hj')
  · intro j t hj
    rw [hexecutor]
    by_cases hjk : j = k
    · subst hjk
      rw [hpc, Function.update_self] at hj
      exact hcreating t hj
    · rw [hpc, Function.update_of_ne hjk] at hj
      exact h.creating j t hj
  · rw [hexecutor, hexecutions]
    exact h.tests
  · rw [hexecutor, hinstances]
    exact h.instances
  · intro j p' t e x' hj hp'
    obtain ⟨p, x, hpx, hf⟩ := hfrom hj
    rw [hinstances]
    refine h.unlisted j p t e x hpx ?_
    obtain hf | ⟨rfl, rfl⟩ := hf
    · exact hf.unlisted.symm.trans hp'
    · exact hp'
  · intro j p' t e x' hj hp'
    obtain ⟨p, x, hpx, hf⟩ := hfrom hj
    rw [hinstances]
    refine h.listed j p t e x hpx ?_
    obtain hf | ⟨rfl, rfl⟩ := hf
    · exact hf.unlisted.symm.trans hp'
    · exact hp'
  · rw [hexecutions]
    exact h.free
  · rw [hexecutor, hexecutions, hreturned]
    exact h.returned

omit [DecidableEq θ] in
theorem OwnInv.sameTest (h : OwnInv callbacks s) {t t' : τ} {e : ℕ} (ht : s.executor t = some e)
    (ht' : s.executor t' = some e) : t = t' := by
  obtain ⟨ex, hex, htest⟩ := h.tests t e ht
  obtain ⟨ex', hex', htest'⟩ := h.tests t' e ht'
  obtain rfl : ex = ex' := Option.some.inj (hex.symm.trans hex')
  exact htest.symm.trans htest'

omit [DecidableEq θ] in
/-- No two calls of `execute` work on one executor. -/
theorem OwnInv.alone (h : OwnInv callbacks s) {j k : θ} {p p' : Stage} {t t' : τ} {e : ℕ} {x x' : Bool}
    (hj : s.pc j = .owning p t e x) (hk : s.pc k = .owning p' t' e x') : j = k := by
  obtain rfl : t = t' := h.sameTest (h.executor j p t e x hj) (h.executor k p' t' e x' hk)
  exact h.unique j k t (by rw [hj]; rfl) (by rw [hk]; rfl)

omit [DecidableEq θ] in
/-- Something happens to one executor. -/
theorem OwnInv.modify (h : OwnInv callbacks s) {e : ℕ} {f : Execution τ → Execution τ}
    (hexecutor : s'.executor = s.executor) (hexecutions : s'.executions = s.executions.modify e f)
    (hinstances : s'.instances = s.instances) (hreturned : s'.returned = s.returned)
    (htest : ∀ ex, (f ex).test = ex.test) (hno : ∀ b, (e, b) ∉ s.returned)
    (hfree : ∀ ex, s.executions[e]? = some ex → (f ex).calls.Sublist (lifecycle (callbacks ex.test)))
    (hcreating : ∀ j t, s'.pc j = .creating t → s.pc j = .creating t)
    (howning : ∀ j p' t e' x, s'.pc j = .owning p' t e' x →
      ∃ p, s.pc j = .owning p t e' x ∧ p'.unlisted = p.unlisted ∧
        ∀ ex, s.executions[e']? = some ex → ex.At callbacks p t x →
          (if e = e' then f ex else ex).At callbacks p' t x) :
    OwnInv callbacks s' := by
  have hget {i : ℕ} {ex : Execution τ} (hi : s.executions[i]? = some ex) :
      s'.executions[i]? = some (if e = i then f ex else ex) := by
    rw [hexecutions, List.getElem?_modify, hi]
    rfl
  have howns {j : θ} {t : τ} (hj : (s'.pc j).owns = some t) : (s.pc j).owns = some t := by
    cases hpcj : s'.pc j with
    | owning p' u e' x =>
        obtain ⟨p, hp, -⟩ := howning j p' u e' x hpcj
        rw [hpcj] at hj
        rw [hp]
        exact hj
    | _ =>
        rw [hpcj] at hj
        cases hj
  constructor
  · intro j p' t e' x hj
    obtain ⟨p, hp, -⟩ := howning j p' t e' x hj
    rw [hexecutor]
    exact h.executor j p t e' x hp
  · intro j p' t e' x hj
    obtain ⟨p, hp, -, hat⟩ := howning j p' t e' x hj
    obtain ⟨ex, hex, hex'⟩ := h.stage j p t e' x hp
    exact ⟨_, hget hex, hat ex hex hex'⟩
  · exact fun j j' t hj hj' ↦ h.unique j j' t (howns hj) (howns hj')
  · intro j t hj
    rw [hexecutor]
    exact h.creating j t (hcreating j t hj)
  · intro t e' he'
    rw [hexecutor] at he'
    obtain ⟨ex, hex, hextest⟩ := h.tests t e' he'
    refine ⟨_, hget hex, ?_⟩
    split_ifs
    · rw [htest, hextest]
    · exact hextest
  · rw [hexecutor, hinstances]
    exact h.instances
  · intro j p' t e' x hj hp'
    obtain ⟨p, hp, hunlisted, -⟩ := howning j p' t e' x hj
    rw [hinstances]
    exact h.unlisted j p t e' x hp (hunlisted.symm.trans hp')
  · intro j p' t e' x hj hp'
    obtain ⟨p, hp, hunlisted, -⟩ := howning j p' t e' x hj
    rw [hinstances]
    exact h.listed j p t e' x hp (hunlisted.symm.trans hp')
  · intro ex' hex'
    obtain ⟨i, hi⟩ := List.getElem?_of_mem hex'
    rw [hexecutions, List.getElem?_modify] at hi
    obtain ⟨ex, hex, rfl⟩ := Option.map_eq_some_iff.mp hi
    split_ifs with hie
    · subst hie
      rw [htest]
      exact hfree ex hex
    · exact h.free ex (List.mem_of_getElem? hex)
  · intro e' b hb
    rw [hreturned] at hb
    obtain ⟨hnone, ex, hex, hcalls, hdone, hpassed⟩ := h.returned e' b hb
    have hne : e ≠ e' := by
      rintro rfl
      exact hno b hb
    rw [hexecutor]
    exact ⟨hnone, ex, by rw [hget hex, if_neg hne], hcalls, hdone, hpassed⟩

/-- A call on the executor is done. -/
theorem OwnInv.record (h : OwnInv callbacks s) {p p' : Stage} {t : τ} {e : ℕ} {x : Bool} {c : Call}
    (hk : s.pc k = .owning p t e x) (hbefore : p'.before (callbacks t) = p.before (callbacks t) ++ [c])
    (hunlisted : p'.unlisted = p.unlisted) (hdone : p' = .clearing → s.isDone e = true) :
    OwnInv callbacks ((s.record e c).setPc k (.owning p' t e x)) := by
  have hexecutor := h.executor k p t e x hk
  refine h.modify (e := e) rfl rfl rfl rfl (fun _ ↦ rfl) (fun b hb ↦ (h.returned e b hb).1 t hexecutor)
    (fun ex hex ↦ ?_) (fun j u hj ↦ ?_) fun j q u e' y hj ↦ ?_
  · obtain ⟨ex', hex', hat⟩ := h.stage k p t e x hk
    obtain rfl : ex = ex' := Option.some.inj (hex.symm.trans hex')
    have hsub := (hat.sublist.append_right [c]).trans (List.Sublist.refl _)
    rw [← hbefore] at hsub
    rw [hat.test]
    exact hsub.trans (Stage.before_sublist _ p')
  · by_cases hjk : j = k
    · subst hjk
      rw [State.setPc_self] at hj
      cases hj
    · rw [State.setPc_of_ne _ hjk] at hj
      exact hj
  · by_cases hjk : j = k
    · subst hjk
      rw [State.setPc_self] at hj
      cases hj
      refine ⟨p, hk, hunlisted, fun ex hex hat ↦ ?_⟩
      rw [if_pos rfl]
      refine ⟨hat.test, ?_, fun hx ↦ ?_, fun hp' ↦ ?_⟩
      · rw [hbefore]
        exact hat.sublist.append_right [c]
      · rw [hbefore, ← hat.calls hx]
      · have := hdone hp'
        simpa [State.isDone, hex] using this
    · rw [State.setPc_of_ne _ hjk] at hj
      have hj' : s.pc j = .owning q u e' y := hj
      refine ⟨q, hj', rfl, fun ex hex hat ↦ ?_⟩
      have hne : e ≠ e' := by
        rintro rfl
        exact hjk (h.alone hj' hk)
      rwa [if_neg hne]

omit [DecidableEq θ] in
/-- The thread of an executor is done. -/
theorem OwnInv.finish (h : OwnInv callbacks s) {e : ℕ} {passed : Bool}
    (hopen : ∀ ex, s.executions[e]? = some ex → ex.done = false) :
    OwnInv callbacks
      { s with executions := s.executions.modify e fun x ↦ { x with done := true, passed := passed } } := by
  refine h.modify (e := e) rfl rfl rfl rfl (fun _ ↦ rfl) (fun b hb ↦ ?_) (fun ex hex ↦ ?_) (fun _ _ hj ↦ hj)
    fun j p t e' x hj ↦ ⟨p, hj, rfl, fun ex _ hat ↦ ?_⟩
  · obtain ⟨-, ex, hex, -, hdone, -⟩ := h.returned e b hb
    simp [hopen ex hex] at hdone
  · exact h.free ex (List.mem_of_getElem? hex)
  · split_ifs
    · exact ⟨hat.test, hat.sublist, hat.calls, fun _ ↦ rfl⟩
    · exact hat

variable [DecidableEq τ] {t : τ}

/-- A call of `execute` makes its executor. -/
theorem OwnInv.create (h : OwnInv callbacks s) (hk : s.pc k = .creating t)
    (halone : ∀ j, s.pc j = .creating t → j = k)
    (hexecutor : s'.executor = Function.update s.executor t (some s.executions.length))
    (hexecutions : s'.executions = s.executions ++ [{ test := t }]) (hinstances : s'.instances = s.instances)
    (hreturned : s'.returned = s.returned)
    (hpc : s'.pc = Function.update s.pc k (.owning .registering t s.executions.length false)) :
    OwnInv callbacks s' := by
  have hnone : s.executor t = none := h.creating k t hk
  have hne {u : τ} {e : ℕ} (hu : s.executor u = some e) : u ≠ t := by
    rintro rfl
    rw [hnone] at hu
    cases hu
  have hkept {u : τ} {e : ℕ} (hu : s.executor u = some e) : s'.executor u = some e := by
    rw [hexecutor, Function.update_of_ne (hne hu), hu]
  have hget {e : ℕ} {ex : Execution τ} (he : s.executions[e]? = some ex) : s'.executions[e]? = some ex := by
    obtain ⟨hlt, -⟩ := List.getElem?_eq_some_iff.mp he
    rw [hexecutions, List.getElem?_append_left hlt, he]
  have hnew : s'.executions[s.executions.length]? = some { test := t } := by simp [hexecutions]
  have hold {u : τ} {e : ℕ} (hu : s'.executor u = some e) :
      u = t ∧ s.executions.length = e ∨ u ≠ t ∧ s.executor u = some e := by
    rw [hexecutor] at hu
    by_cases hut : u = t
    · subst hut
      rw [Function.update_self] at hu
      exact .inl ⟨rfl, Option.some.inj hu⟩
    · exact .inr ⟨hut, by rwa [Function.update_of_ne hut] at hu⟩
  have hunlisted (uid : Option ℕ) : some (uid, t) ∉ s.instances := by
    intro hmem
    obtain ⟨e, -, he⟩ := h.instances uid t hmem
    exact hne he rfl
  have hself : s'.pc k = .owning .registering t s.executions.length false := by rw [hpc, Function.update_self]
  have hother {j : θ} (hj : j ≠ k) : s'.pc j = s.pc j := by rw [hpc, Function.update_of_ne hj]
  constructor
  · intro j p u e x hj
    by_cases hjk : j = k
    · subst hjk
      cases hself.symm.trans hj
      rw [hexecutor, Function.update_self]
    · exact hkept (h.executor j p u e x ((hother hjk).symm.trans hj))
  · intro j p u e x hj
    by_cases hjk : j = k
    · subst hjk
      cases hself.symm.trans hj
      exact ⟨_, hnew, by constructor <;> simp [Stage.before]⟩
    · obtain ⟨ex, hex, hat⟩ := h.stage j p u e x ((hother hjk).symm.trans hj)
      exact ⟨ex, hget hex, hat⟩
  · have howner {j : θ} (hjk : j ≠ k) {u : τ} (hj : (s'.pc j).owns = some u) :
        (s.pc j).owns = some u ∧ u ≠ t := by
      rw [hother hjk] at hj
      refine ⟨hj, ?_⟩
      cases hpcj : s.pc j with
      | owning p v e x =>
          rw [hpcj] at hj
          cases hj
          exact hne (h.executor j p u e x hpcj)
      | _ =>
          rw [hpcj] at hj
          cases hj
    have hk' {u : τ} (hu : (s'.pc k).owns = some u) : u = t := by
      rw [hself] at hu
      exact (Option.some.inj hu).symm
    intro j j' u hj hj'
    by_cases hjk : j = k <;> by_cases hjk' : j' = k
    · rw [hjk, hjk']
    · exact absurd (hk' (hjk ▸ hj)) (howner hjk' hj').2
    · exact absurd (hk' (hjk' ▸ hj')) (howner hjk hj).2
    · exact h.unique j j' u (howner hjk hj).1 (howner hjk' hj').1
  · intro j u hj
    have hjk : j ≠ k := by
      rintro rfl
      cases hself.symm.trans hj
    rw [hother hjk] at hj
    have hut : u ≠ t := by
      rintro rfl
      exact hjk (halone j hj)
    rw [hexecutor, Function.update_of_ne hut]
    exact h.creating j u hj
  · intro u e hu
    obtain ⟨rfl, rfl⟩ | ⟨-, hu⟩ := hold hu
    · exact ⟨_, hnew, rfl⟩
    · obtain ⟨ex, hex, htest⟩ := h.tests u e hu
      exact ⟨ex, hget hex, htest⟩
  · intro uid u hmem
    rw [hinstances] at hmem
    obtain ⟨e, huid, he⟩ := h.instances uid u hmem
    exact ⟨e, huid, hkept he⟩
  · intro j p u e x hj hp
    rw [hinstances]
    by_cases hjk : j = k
    · subst hjk
      cases hself.symm.trans hj
      exact hunlisted
    · exact h.unlisted j p u e x ((hother hjk).symm.trans hj) hp
  · intro j p u e x hj hp
    rw [hinstances]
    by_cases hjk : j = k
    · subst hjk
      cases hself.symm.trans hj
      cases hp
    · exact h.listed j p u e x ((hother hjk).symm.trans hj) hp
  · intro ex hex
    rw [hexecutions, List.mem_append, List.mem_singleton] at hex
    obtain hex | rfl := hex
    · exact h.free ex hex
    · exact List.nil_sublist _
  · intro e b hb
    rw [hreturned] at hb
    obtain ⟨hno, ex, hex, hrest⟩ := h.returned e b hb
    refine ⟨fun u hu ↦ ?_, ex, hget hex, hrest⟩
    obtain ⟨-, rfl⟩ | ⟨-, hu⟩ := hold hu
    · simp at hex
    · exact hno u hu

/-- A call of `execute` gives up its executor. -/
theorem OwnInv.clear (h : OwnInv callbacks s) {e : ℕ} {x : Bool} (hk : s.pc k = .owning .clearing t e x)
    (hexecutor : s'.executor = Function.update s.executor t none) (hexecutions : s'.executions = s.executions)
    (hinstances : s'.instances = s.instances) (hpc : s'.pc = Function.update s.pc k .idle)
    (hreturned : s'.returned = s.returned ∨
      x = false ∧ s'.returned = s.returned ++ [(e, s.executions[e]?.any (·.passed))]) :
    OwnInv callbacks s' := by
  have hold {j : θ} {pc : Pc τ} (hpc' : pc ≠ .idle) (hj : s'.pc j = pc) : j ≠ k ∧ s.pc j = pc := by
    rw [hpc] at hj
    by_cases hjk : j = k
    · subst hjk
      rw [Function.update_self] at hj
      exact absurd hj.symm hpc'
    · exact ⟨hjk, by rwa [Function.update_of_ne hjk] at hj⟩
  have hother {j : θ} {p : Stage} {u : τ} {e' : ℕ} {y : Bool} (hjk : j ≠ k) (hj : s.pc j = .owning p u e' y) :
      u ≠ t := by
    rintro rfl
    exact hjk (h.unique j k u (by rw [hj]; rfl) (by rw [hk]; rfl))
  have hsome {u : τ} {e' : ℕ} (hu : s'.executor u = some e') : u ≠ t ∧ s.executor u = some e' := by
    rw [hexecutor] at hu
    by_cases hut : u = t
    · subst hut
      rw [Function.update_self] at hu
      cases hu
    · exact ⟨hut, by rwa [Function.update_of_ne hut] at hu⟩
  have hreturnedOld {e' : ℕ} {b : Bool} (hb : (e', b) ∈ s.returned) : (∀ u, s'.executor u ≠ some e') ∧
      ∃ ex, s'.executions[e']? = some ex ∧ ex.calls = lifecycle (callbacks ex.test) ∧ ex.done = true ∧ ex.passed = b := by
    obtain ⟨hno, hrest⟩ := h.returned e' b hb
    rw [hexecutions]
    exact ⟨fun u hu ↦ hno u (hsome hu).2, hrest⟩
  constructor
  · intro j p u e' y hj
    obtain ⟨hjk, hj⟩ := hold (by simp) hj
    rw [hexecutor, Function.update_of_ne (hother hjk hj)]
    exact h.executor j p u e' y hj
  · intro j p u e' y hj
    obtain ⟨-, hj⟩ := hold (by simp) hj
    rw [hexecutions]
    exact h.stage j p u e' y hj
  · have howns {j : θ} {u : τ} (hj : (s'.pc j).owns = some u) : (s.pc j).owns = some u := by
      cases hpcj : s'.pc j with
      | owning p v e' y => rwa [(hold (by simp) hpcj).2, ← hpcj]
      | _ =>
          rw [hpcj] at hj
          cases hj
    exact fun j j' u hj hj' ↦ h.unique j j' u (howns hj) (howns hj')
  · intro j u hj
    obtain ⟨-, hj⟩ := hold (by simp) hj
    by_cases hut : u = t
    · rw [hexecutor, hut, Function.update_self]
    · rw [hexecutor, Function.update_of_ne hut]
      exact h.creating j u hj
  · intro u e' hu
    rw [hexecutions]
    exact h.tests u e' (hsome hu).2
  · intro uid u hmem
    rw [hinstances] at hmem
    obtain ⟨e', huid, he'⟩ := h.instances uid u hmem
    have hut : u ≠ t := by
      rintro rfl
      exact h.unlisted k .clearing u e x hk rfl uid hmem
    exact ⟨e', huid, by rw [hexecutor, Function.update_of_ne hut, he']⟩
  · intro j p u e' y hj hp
    obtain ⟨-, hj⟩ := hold (by simp) hj
    rw [hinstances]
    exact h.unlisted j p u e' y hj hp
  · intro j p u e' y hj hp
    obtain ⟨-, hj⟩ := hold (by simp) hj
    rw [hinstances]
    exact h.listed j p u e' y hj hp
  · rw [hexecutions]
    exact h.free
  · intro e' b hb
    obtain hreturned | ⟨rfl, hreturned⟩ := hreturned
    · exact hreturnedOld (hreturned ▸ hb)
    · rw [hreturned, List.mem_append, List.mem_singleton] at hb
      obtain hb | hb := hb
      · exact hreturnedOld hb
      · cases hb
        obtain ⟨ex, hex, hat⟩ := h.stage k .clearing t e false hk
        refine ⟨fun u hu ↦ ?_, ex, hexecutions ▸ hex, ?_, hat.done rfl, by simp [hex]⟩
        · obtain ⟨hut, hu⟩ := hsome hu
          obtain ⟨ex', hex', htest⟩ := h.tests u e hu
          obtain rfl : ex = ex' := Option.some.inj (hex.symm.trans hex')
          exact hut (htest.symm.trans hat.test)
        · rw [hat.calls rfl, hat.test]
          rfl

omit [DecidableEq τ] in
/-- A call of `execute` enters its test into `TEST_INSTANCES` or takes it out. -/
theorem OwnInv.setInstances (h : OwnInv callbacks s) {p p' : Stage} {e : ℕ} {x : Bool}
    {is : List (Option (Option ℕ × τ))} (hk : s.pc k = .owning p t e x)
    (hbefore : p'.before (callbacks t) = p.before (callbacks t)) (hclearing : p' ≠ .clearing)
    (his : ∀ uid u, some (uid, u) ∈ is → some (uid, u) ∈ s.instances ∨ uid = some e ∧ u = t)
    (hkept : ∀ e' u, e' ≠ e → some (some e', u) ∈ s.instances → some (some e', u) ∈ is)
    (hunlisted : p'.unlisted = true → ∀ uid, some (uid, t) ∉ is)
    (hlisted : p'.unlisted = false → some (some e, t) ∈ is) :
    OwnInv callbacks (State.setPc k (.owning p' t e x) { s with instances := is }) := by
  have hold {j : θ} {q : Stage} {u : τ} {e' : ℕ} {y : Bool}
      (hj : (State.setPc k (.owning p' t e x) { s with instances := is }).pc j = .owning q u e' y) :
      (j = k ∧ q = p' ∧ u = t ∧ e' = e ∧ y = x) ∨ j ≠ k ∧ s.pc j = .owning q u e' y := by
    by_cases hjk : j = k
    · subst hjk
      rw [State.setPc_self] at hj
      cases hj
      exact .inl ⟨rfl, rfl, rfl, rfl, rfl⟩
    · rw [State.setPc_of_ne _ hjk] at hj
      exact .inr ⟨hjk, hj⟩
  constructor
  · intro j q u e' y hj
    obtain ⟨-, -, rfl, rfl, -⟩ | ⟨-, hj⟩ := hold hj
    · exact h.executor k p u e' x hk
    · exact h.executor j q u e' y hj
  · intro j q u e' y hj
    obtain ⟨-, rfl, rfl, rfl, rfl⟩ | ⟨-, hj⟩ := hold hj
    · obtain ⟨ex, hex, hat⟩ := h.stage k p u e' y hk
      exact ⟨ex, hex, hat.test, hbefore ▸ hat.sublist, fun hy ↦ hbefore ▸ hat.calls hy,
        fun hq ↦ absurd hq hclearing⟩
    · exact h.stage j q u e' y hj
  · have howns {j : θ} {u : τ}
        (hj : ((State.setPc k (.owning p' t e x) { s with instances := is }).pc j).owns = some u) :
        (s.pc j).owns = some u := by
      by_cases hjk : j = k
      · subst hjk
        rw [State.setPc_self] at hj
        rw [hk]
        exact hj
      · rwa [State.setPc_of_ne _ hjk] at hj
    exact fun j j' u hj hj' ↦ h.unique j j' u (howns hj) (howns hj')
  · intro j u hj
    by_cases hjk : j = k
    · subst hjk
      rw [State.setPc_self] at hj
      cases hj
    · rw [State.setPc_of_ne _ hjk] at hj
      exact h.creating j u hj
  · exact h.tests
  · intro uid u hmem
    obtain hmem | ⟨rfl, rfl⟩ := his uid u hmem
    · exact h.instances uid u hmem
    · exact ⟨e, rfl, h.executor k p u e x hk⟩
  · intro j q u e' y hj hq uid hmem
    obtain ⟨-, rfl, rfl, -, -⟩ | ⟨hjk, hpcj⟩ := hold hj
    · exact hunlisted hq uid hmem
    · obtain hmem | ⟨rfl, rfl⟩ := his uid u hmem
      · exact h.unlisted j q u e' y hpcj hq uid hmem
      · exact hjk (h.unique j k u (by rw [hpcj]; rfl) (by rw [hk]; rfl))
  · intro j q u e' y hj hq
    obtain ⟨-, rfl, rfl, rfl, -⟩ | ⟨hjk, hpcj⟩ := hold hj
    · exact hlisted hq
    · refine hkept e' u ?_ (h.listed j q u e' y hpcj hq)
      rintro rfl
      exact hjk (h.alone hpcj hk)
  · exact h.free
  · exact h.returned

/-! ### Steps -/

omit [DecidableEq τ] in
theorem setInstance_of_notMem {uid : Option ℕ} {is : List (Option (Option ℕ × τ))}
    (h : ∀ u, some (uid, u) ∉ is) : setInstance uid t is = is ++ [some (uid, t)] := by
  have hno : is.any (·.any (·.1 = uid)) = false := by
    rw [List.any_eq_false]
    rintro (_ | ⟨v, u⟩) hi
    · simp
    · have hne : v ≠ uid := by
        rintro rfl
        exact h u hi
      simp [hne]
  simp [setInstance, hno]

omit [DecidableEq τ] in
theorem mem_delInstance {uid v : Option ℕ} {u : τ} {is : List (Option (Option ℕ × τ))} :
    some (v, u) ∈ delInstance uid is ↔ some (v, u) ∈ is ∧ v ≠ uid := by
  rw [delInstance, List.mem_map]
  constructor
  · rintro ⟨i, hi, hmap⟩
    split_ifs at hmap with hany
    subst hmap
    exact ⟨hi, by simpa using hany⟩
  · rintro ⟨hi, hne⟩
    exact ⟨_, hi, by simp [hne]⟩

omit [DecidableEq θ] [DecidableEq τ] in
/-- A test that is entered is not there yet. -/
theorem OwnInv.setInstance_eq (h : OwnInv callbacks s) {e : ℕ} {x : Bool}
    (hk : s.pc k = .owning .registering t e x) :
    setInstance (s.executor t) t s.instances = s.instances ++ [some (some e, t)] := by
  have hexecutor := h.executor k _ t e x hk
  rw [hexecutor]
  refine setInstance_of_notMem fun u hu ↦ ?_
  obtain ⟨e', he', hu'⟩ := h.instances _ u hu
  obtain rfl := Option.some.inj he'
  obtain rfl : t = u := h.sameTest hexecutor hu'
  exact h.unlisted k _ t e x hk rfl _ hu

theorem OwnInv.raiseIn (h : OwnInv callbacks s) (k : θ) (keyboard : Bool) :
    OwnInv callbacks (s.raiseIn k keyboard) := by
  have hmove {s' : State θ τ} (hexecutor : s'.executor = s.executor) (hexecutions : s'.executions = s.executions)
      (hinstances : s'.instances = s.instances) (hreturned : s'.returned = s.returned) (hpc : s'.pc = s.pc) :
      OwnInv callbacks (s'.setPc k ((s.pc k).raised keyboard)) := by
    have hpc' : (s'.setPc k ((s.pc k).raised keyboard)).pc = Function.update s.pc k ((s.pc k).raised keyboard) := by
      rw [State.setPc, hpc]
    refine h.move hexecutor hexecutions hinstances hreturned hpc' ?_ ?_
    · intro u hu
      have hheld := Pc.held_raised keyboard (s.pc k)
      rw [hu] at hheld
      cases hheld
    · exact fun p' u e x' hp' ↦ follows_raised (callbacks u) hp'
  unfold State.raiseIn
  split
  · exact hmove rfl rfl rfl rfl rfl
  · exact hmove rfl rfl rfl rfl rfl

theorem OwnInv.raiseMain (h : OwnInv callbacks s) (main : θ) (keyboard : Bool) :
    OwnInv callbacks (raiseMain main keyboard s) :=
  OwnInv.raiseIn (s := { s with frames := [], lock := fun t ↦ if s.lock t = some .handler then none else s.lock t })
    { h with } main keyboard

omit [DecidableEq τ] in
/-- The code of a thread goes on outside of a call of `execute` that has made its executor. -/
theorem OwnInv.outside (h : OwnInv callbacks s) (hexecutor : s'.executor = s.executor)
    (hexecutions : s'.executions = s.executions) (hinstances : s'.instances = s.instances)
    (hreturned : s'.returned = s.returned) (hpc : s'.pc = Function.update s.pc k pc')
    (hcreating : ∀ t, pc' = .creating t → s.executor t = none) (hno : pc'.owns = none) : OwnInv callbacks s' :=
  h.move hexecutor hexecutions hinstances hreturned hpc hcreating fun p' t e x' hp' ↦ by
    rw [hp'] at hno
    cases hno

theorem OwnInv.resume (h : OwnInv callbacks s) {abort : Bool} {p : Section} {r : Result θ τ}
    (hr : sectionStep abort (.code k) t s p = some r) : OwnInv callbacks (r.resume k t s) := by
  obtain ⟨rfl, -, rfl⟩ | ⟨rfl, rfl⟩ | ⟨-, -, rfl | rfl⟩ | ⟨e, -, -, rfl | ⟨p', -, -, rfl⟩⟩ := sectionStep_cases hr
  · exact h.outside rfl rfl rfl rfl rfl (by simp) rfl
  · exact h.outside rfl rfl rfl rfl rfl (by simp) rfl
  · exact h.raiseIn k false
  · exact h.outside rfl rfl rfl rfl rfl (by simp) rfl
  · exact h.outside rfl rfl rfl rfl rfl (by simp) rfl
  · exact h.outside rfl rfl rfl rfl rfl (by simp) rfl

theorem withExecutor_of_some {f : ℕ → Option (State θ τ)} {e : ℕ} (h : s.executor t = some e) :
    withExecutor k t s f = f e := by
  unfold withExecutor
  rw [h]

theorem OwnInv.stageStep (h : OwnInv callbacks s) {p : Stage} {e : ℕ} {x : Bool} (hk : s.pc k = .owning p t e x)
    (hstep : stageStep callbacks k t e x s p = some s') : OwnInv callbacks s' := by
  have hexecutor := h.executor k p t e x hk
  have hon (p' : Stage) (hf : Follows (callbacks t) p x p' x) {s' : State θ τ} (hs' : s'.executor = s.executor)
      (hexecutions : s'.executions = s.executions) (hinstances : s'.instances = s.instances)
      (hreturned : s'.returned = s.returned) (hpc : s'.pc = Function.update s.pc k (.owning p' t e x)) :
      OwnInv callbacks s' := by
    refine h.move hs' hexecutions hinstances hreturned hpc (by simp) fun q u e' y hq ↦ ?_
    cases hq
    exact ⟨p, x, hk, hf⟩
  cases p with
  | registering =>
      obtain rfl := Option.some.inj hstep
      rw [h.setInstance_eq hk]
      exact h.setInstances hk rfl (by simp) (fun uid u hmem ↦ by simpa using hmem)
        (fun e' u _ hmem ↦ List.mem_append_left _ hmem) (by simp [Stage.unlisted]) (by simp)
  | starting =>
      simp only [TestExecution.stageStep, withExecutor_of_some hexecutor, Option.some.injEq] at hstep
      subst hstep
      exact h.record hk rfl rfl (by simp)
  | unlocking =>
      obtain rfl := Option.some.inj hstep
      exact hon .started ⟨.refl _, fun hx ↦ ⟨hx, rfl⟩, rfl, by simp⟩ rfl rfl rfl rfl rfl
  | started =>
      obtain rfl := Option.some.inj hstep
      exact hon .waiting ⟨.refl _, fun hx ↦ ⟨hx, rfl⟩, rfl, by simp⟩ rfl rfl rfl rfl rfl
  | waiting | interrupted =>
      simp only [TestExecution.stageStep, withExecutor_of_some hexecutor, Option.ite_none_right_eq_some,
        Option.some.injEq] at hstep
      obtain ⟨-, rfl⟩ := hstep
      exact h.record hk rfl rfl (by simp)
  | finalizing =>
      simp only [TestExecution.stageStep, withExecutor_of_some hexecutor, Option.some.injEq] at hstep
      subst hstep
      exact h.record hk (by simp [Stage.before]) rfl (by simp)
  | outputting n =>
      obtain rfl := Option.some.inj hstep
      split
      · rename_i hn
        refine h.record hk ?_ rfl (by simp)
        have htake : (List.range (callbacks t)).take (n + 1) = (List.range (callbacks t)).take n ++ [n] := by
          rw [List.take_add_one]
          simp [hn]
        simp [Stage.before, htake]
      · rename_i hn
        have htake : (List.range (callbacks t)).take n = List.range (callbacks t) :=
          List.take_of_length_le (by simpa using Nat.not_lt.mp hn)
        refine hon .deleting ⟨?_, fun hx ↦ ⟨hx, ?_⟩, rfl, by simp⟩ rfl rfl rfl rfl rfl
        · simp [Stage.before, htake]
        · simp [Stage.before, htake]
  | deleting =>
      obtain rfl := Option.some.inj hstep
      split
      · refine h.setInstances hk rfl (by simp) (fun uid u hmem ↦ ?_) (fun e' u hne hmem ↦ ?_)
          (fun _ uid hmem ↦ ?_) (by simp [Stage.unlisted])
        · exact .inl (mem_delInstance.mp hmem).1
        · exact mem_delInstance.mpr ⟨hmem, by simpa [hexecutor] using hne⟩
        · obtain ⟨hmem, hne⟩ := mem_delInstance.mp hmem
          obtain ⟨e', rfl, he'⟩ := h.instances uid t hmem
          exact hne he'.symm
      · exact h.raiseIn k false
  | closing =>
      simp only [TestExecution.stageStep, withExecutor_of_some hexecutor, Option.ite_none_right_eq_some,
        Option.some.injEq] at hstep
      obtain ⟨hdone, rfl⟩ := hstep
      exact h.record hk rfl rfl fun _ ↦ hdone
  | clearing =>
      obtain rfl := Option.some.inj hstep
      cases x
      · exact h.clear hk rfl rfl rfl rfl (.inr ⟨rfl, rfl⟩)
      · exact h.clear hk rfl rfl rfl rfl (.inl rfl)

theorem OwnInv.codeStep (h : OwnInv callbacks s) (hlocked : s.Locked)
    (hstep : codeStep callbacks k s = some s') : OwnInv callbacks s' := by
  unfold TestExecution.codeStep at hstep
  cases hpc : s.pc k with
  | idle => simp [hpc] at hstep
  | state p t =>
      simp only [hpc, Option.map_eq_some_iff] at hstep
      obtain ⟨r, hr, rfl⟩ := hstep
      exact h.resume hr
  | acquiring t =>
      simp only [hpc, Option.ite_none_right_eq_some, Option.some.injEq] at hstep
      obtain ⟨-, rfl⟩ := hstep
      exact h.outside rfl rfl rfl rfl rfl (by simp) rfl
  | checking t =>
      simp only [hpc, Option.some.injEq] at hstep
      subst hstep
      split
      · rename_i hnone
        refine h.outside rfl rfl rfl rfl rfl (fun u hu ↦ ?_) rfl
        cases hu
        exact hnone
      · exact h.raiseIn k false
  | creating t =>
      simp only [hpc, Option.some.injEq] at hstep
      subst hstep
      refine h.create hpc (fun j hj ↦ ?_) rfl rfl rfl rfl rfl
      -- Both are in the locked section of the test.
      have hlock := (hlocked.code t k).mpr (by rw [hpc]; rfl)
      have hlock' := (hlocked.code t j).mpr (by rw [hj]; rfl)
      simpa using hlock'.symm.trans hlock
  | owning p t e raised =>
      simp only [hpc] at hstep
      exact h.stageStep hpc hstep

theorem OwnInv.handlerStep (h : OwnInv callbacks s) {main : θ} {f : Frame τ} {rest : List (Frame τ)}
    (hstep : handlerStep main s f rest = some s') : OwnInv callbacks s' := by
  unfold TestExecution.handlerStep at hstep
  cases hf : f.pc with
  | entered =>
      simp only [hf, Option.some.injEq] at hstep
      subst hstep
      split
      · exact h.raiseMain main true
      · exact { h with }
  | iterating i n =>
      simp only [hf, Option.some.injEq] at hstep
      subst hstep
      split
      · exact h.raiseMain main false
      · split
        · exact { h with }
        · exact { h with }
  | aborting p t i n =>
      simp only [hf, Option.map_eq_some_iff] at hstep
      obtain ⟨r, hr, rfl⟩ := hstep
      obtain ⟨rfl, -, rfl⟩ | ⟨rfl, rfl⟩ | ⟨-, -, rfl | rfl⟩ | ⟨e, -, -, rfl | ⟨p', -, -, rfl⟩⟩ :=
        sectionStep_cases hr
      · exact { h with }
      · exact { h with }
      · exact h.raiseMain main false
      · exact { h with }
      · exact { h with }
      · exact { h with }
  | looped =>
      simp only [hf, Option.some.injEq] at hstep
      subst hstep
      split
      · exact { h with }
      · exact OwnInv.raiseMain (s := { s with handledSigintOnce := true }) { h with } main true

theorem ownInv_step {main : θ} {a : Action θ τ} (h : OwnInv callbacks s) (hlocked : s.Locked)
    (hstep : step main callbacks s a = some s') : OwnInv callbacks s' := by
  cases a with
  | execute k t | state k t =>
      simp only [step, Option.ite_none_right_eq_some, Option.some.injEq] at hstep
      obtain ⟨-, rfl⟩ := hstep
      exact h.outside rfl rfl rfl rfl rfl (by simp) rfl
  | step k =>
      simp only [step, Option.ite_none_left_eq_some] at hstep
      exact h.codeStep hlocked hstep.2
  | raise k =>
      simp only [step, Option.ite_none_left_eq_some, Option.some.injEq] at hstep
      obtain ⟨-, rfl⟩ := hstep
      exact h.raiseIn k false
  | finish e passed =>
      simp only [step, Option.ite_none_right_eq_some, Option.some.injEq] at hstep
      obtain ⟨hopen, rfl⟩ := hstep
      refine h.finish fun ex hex ↦ ?_
      simp only [hex, Option.any_some, decide_eq_true_eq] at hopen
      exact hopen.2
  | sigint =>
      obtain rfl := Option.some.inj hstep
      exact { h with }
  | handler =>
      simp only [step] at hstep
      split at hstep
      · cases hstep
      · exact h.handlerStep hstep

/-! ## Every run -/

variable {main : θ} {as : List (Action θ τ)}

omit [DecidableEq θ] [DecidableEq τ] in
theorem locked_initial : ({} : State θ τ).Locked := by
  constructor <;> simp [Pc.held]

theorem inv_run (hrun : runActions (step main callbacks) as {} = some s) : s.Locked ∧ OwnInv callbacks s :=
  run_invariant (I := fun s ↦ s.Locked ∧ OwnInv callbacks s) (C := fun _ _ ↦ True)
    (fun _ _ _ h _ hstep ↦ ⟨locked_step h.1 hstep, ownInv_step h.2 h.1 hstep⟩)
    ⟨locked_initial, ownInv_initial callbacks⟩ (runMeets_of_forall (fun _ _ _ ↦ trivial) _) hrun

/-- What `Test.execute` promises of the executors of all tests. -/
structure Orderly (callbacks : τ → ℕ) (s : State θ τ) : Prop where
  /-- A call works on the executor that it has made. -/
  executor : ∀ k p t e x, s.pc k = .owning p t e x → s.executor t = some e
  /-- No two calls are on one test. -/
  unique : ∀ k k' t, (s.pc k).owns = some t → (s.pc k').owns = some t → k = k'
  /-- What is done with an executor is in the order of one call. -/
  ordered : ∀ ex ∈ s.executions, ex.calls.Sublist (lifecycle (callbacks ex.test))
  /-- A call that returns has done all of it, and says whether the test has passed. -/
  returned : ∀ e b, (e, b) ∈ s.returned →
    ∃ ex, s.executions[e]? = some ex ∧ ex.calls = lifecycle (callbacks ex.test) ∧ ex.done = true ∧ ex.passed = b
  /-- What `TEST_INSTANCES` has is a test under the uid of its executor. -/
  registered : ∀ uid t, some (uid, t) ∈ s.instances → ∃ e, uid = some e ∧ s.executor t = some e
  /-- A test is there from before its executor is started until it is about to be closed. -/
  listed : ∀ k p t e x, s.pc k = .owning p t e x → p.unlisted = false → some (some e, t) ∈ s.instances

/-- Whatever threads call `execute` on whatever tests, read their states and are
interrupted, each executor is that of one call, which does with it all that there is to
do, in order. -/
theorem executes_orderly (hrun : runActions (step main callbacks) as {} = some s) : Orderly callbacks s := by
  obtain ⟨-, h⟩ := inv_run hrun
  exact ⟨h.executor, h.unique, h.free, fun e b hb ↦ (h.returned e b hb).2, h.instances, h.listed⟩

/-- `false` executes the test, `true` tries to while it runs. -/
theorem executes_orderly_twice :
    let run : List (Action Bool Unit) :=
      [.execute false (), .step false, .step false, .step false, .step false, .step false, .execute true (),
        .step false, .step true, .step true, .finish 0 true] ++ List.replicate 9 (.step false)
    ∃ s, runActions (step true (fun _ ↦ 2)) run {} = some s ∧ s.returned = [(0, true)] ∧
      Orderly (fun _ ↦ 2) s := by
  intro run
  have hrun : runActions (step true (fun _ ↦ 2)) run {} = some _ := rfl
  exact ⟨_, hrun, rfl, executes_orderly hrun⟩

end Owner

end OpenHtf.TestExecution
