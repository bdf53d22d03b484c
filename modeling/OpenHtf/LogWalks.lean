import Mathlib.Data.Set.Basic
import OpenHtf.LogRouting

/-!
# Walks over the handlers

`callHandlers` and `remove_record_handler` take the handlers one after the other while
other threads take handlers out.  What that can make them miss.
-/

set_option autoImplicit false

namespace OpenHtf.LogRouting

section Walks

variable {κ : Type} [DecidableEq κ] {s s' : State κ} {k : κ}

/-- How many handlers a thread has passed. -/
def Pc.cursor : Pc → Option ℕ
  | .dispatching _ i | .handling _ i _ | .searching _ i => some i
  | _ => none

/-- Nobody takes out a handler that is in `H`, nor one that `k` has passed. -/
def Undisturbed (k : κ) (H : Set Handler) (s : State κ) (a : Action κ) : Prop :=
  ∀ k' g i, a = .step k' → s.pc k' = .removing g → (s.pc k).cursor = some i → g ∉ H ∧ g ∉ s.handlers.take i

omit [DecidableEq κ] in
theorem mem_drop_erase {α : Type} [DecidableEq α] {l : List α} {i : ℕ} {a b : α} (ha : a ∈ l.drop i) (hb : b ≠ a)
    (hpassed : b ∉ l.take i) : a ∈ (l.erase b).drop i := by
  have hi : i < l.length := by
    by_contra hle
    rw [List.drop_eq_nil_of_le (Nat.not_lt.mp hle)] at ha
    cases ha
  have herase : l.erase b = l.take i ++ (l.drop i).erase b := by
    rw [← List.erase_append_right _ hpassed, List.take_append_drop]
  have hlength : (l.take i).length = i := by
    rw [List.length_take]
    omega
  rw [herase, List.drop_left' hlength]
  exact (List.mem_erase_of_ne hb.symm).mpr ha

/-- The record that `k` logs is in that of the test, or its handler is ahead. -/
def Reaches (k : κ) (r : LogRecord) (uid : String) (s : State κ) : Prop :=
  (k, r) ∈ s.records uid ∨ (∃ i, s.pc k = .dispatching r i ∧ .record uid ∈ s.handlers.drop i) ∨
    ∃ i h, s.pc k = .handling r i h ∧ (h = .record uid ∨ .record uid ∈ s.handlers.drop i)

omit [DecidableEq κ] in
theorem mem_records_handle {r : LogRecord} {uid : String} {j : κ} {r' : LogRecord} (h : Handler)
    (hmem : (k, r) ∈ s.records uid) : (k, r) ∈ (handle j r' s h).records uid := by
  unfold handle
  split
  · split
    · rename_i uid' _
      change (k, r) ∈ Function.update s.records uid' (s.records uid' ++ [(j, r')]) uid
      by_cases huid : uid = uid'
      · subst huid
        rw [Function.update_self]
        exact List.mem_append_left _ hmem
      · rwa [Function.update_of_ne huid]
    · exact hmem
  · exact hmem

omit [DecidableEq κ] in
theorem handlers_handle (j : κ) (r : LogRecord) (s : State κ) (h : Handler) :
    (handle j r s h).handlers = s.handlers ∧ (handle j r s h).pc = s.pc := by
  unfold handle
  split
  · split <;> exact ⟨rfl, rfl⟩
  · exact ⟨rfl, rfl⟩

theorem known_threadStep (hstep : threadStep k s = some s') : s'.known = s.known := by
  unfold threadStep at hstep
  cases hpc : s.pc k with
  | idle => simp [hpc] at hstep
  | dispatching r i | searching uid i =>
      simp only [hpc] at hstep
      split at hstep <;> obtain rfl := Option.some.inj hstep <;> rfl
  | handling r i g =>
      simp only [hpc, Option.some.injEq] at hstep
      subst hstep
      change (handle k r s g).known = s.known
      unfold handle
      split
      · split <;> rfl
      · rfl
  | removing g =>
      simp only [hpc, Option.some.injEq] at hstep
      subst hstep
      rfl

omit [DecidableEq κ] in
/-- Others leave what is ahead of `k` as it is, or add to it. -/
theorem Reaches.mono {r : LogRecord} {uid : String} (h : Reaches k r uid s)
    (hrecords : (k, r) ∈ s.records uid → (k, r) ∈ s'.records uid) (hpc : s'.pc k = s.pc k)
    (hdrop : ∀ i, (s.pc k).cursor = some i → .record uid ∈ s.handlers.drop i → .record uid ∈ s'.handlers.drop i) :
    Reaches k r uid s' := by
  obtain h | ⟨i, hi, h⟩ | ⟨i, g, hi, h⟩ := h
  · exact .inl (hrecords h)
  · exact .inr (.inl ⟨i, hpc.trans hi, hdrop i (by rw [hi]; rfl) h⟩)
  · exact .inr (.inr ⟨i, g, hpc.trans hi, h.imp_right (hdrop i (by rw [hi]; rfl))⟩)

theorem reaches_threadStep {r : LogRecord} {uid : String} {j : κ} (h : Reaches k r uid s)
    (hfilter : testUidFilter uid r.name = true) (hsafe : Undisturbed k {.record uid} s (.step j))
    (hstep : threadStep j s = some s') : Reaches k r uid s' := by
  by_cases hjk : j = k
  · subst hjk
    unfold threadStep at hstep
    obtain h | ⟨i, hpc, hahead⟩ | ⟨i, g, hpc, hahead⟩ := h
    · refine .inl ?_
      cases hpc : s.pc j with
      | idle => simp [hpc] at hstep
      | dispatching r' i | searching uid' i =>
          simp only [hpc] at hstep
          split at hstep <;> obtain rfl := Option.some.inj hstep
          · exact h
          · exact h
      | handling r' i g =>
          simp only [hpc, Option.some.injEq] at hstep
          subst hstep
          exact mem_records_handle g h
      | removing g =>
          simp only [hpc, Option.some.injEq] at hstep
          subst hstep
          exact h
    · simp only [hpc] at hstep
      split at hstep
      · rename_i hnone
        rw [List.drop_eq_nil_of_le (List.getElem?_eq_none_iff.mp hnone)] at hahead
        cases hahead
      · rename_i g hg
        obtain rfl := Option.some.inj hstep
        refine .inr (.inr ⟨i + 1, g, Function.update_self .., ?_⟩)
        rw [drop_of_getElem? hg, List.mem_cons] at hahead
        exact hahead.imp_left Eq.symm
    · simp only [hpc, Option.some.injEq] at hstep
      subst hstep
      obtain rfl | hahead := hahead
      · refine .inl ?_
        rw [handle, if_pos hfilter]
        change (j, r) ∈ Function.update s.records uid (s.records uid ++ [(j, r)]) uid
        simp
      · refine .inr (.inl ⟨i, Function.update_self .., ?_⟩)
        change .record uid ∈ (handle j r s g).handlers.drop i
        rwa [(handlers_handle j r s g).1]
  · have hkeep {pc : Pc} (t : State κ) (ht : t.pc = s.pc) : (t.setPc j pc).pc k = s.pc k := by
      rw [← ht]
      exact Function.update_of_ne (Ne.symm hjk) ..
    unfold threadStep at hstep
    cases hpc : s.pc j with
    | idle => simp [hpc] at hstep
    | dispatching r' i | searching uid' i =>
        simp only [hpc] at hstep
        split at hstep <;> obtain rfl := Option.some.inj hstep
        · exact h.mono id (hkeep s rfl) fun _ _ ↦ id
        · exact h.mono id (hkeep s rfl) fun _ _ ↦ id
    | handling r' i g =>
        simp only [hpc, Option.some.injEq] at hstep
        subst hstep
        refine h.mono (mem_records_handle g) (hkeep _ (handlers_handle j r' s g).2) fun i _ hi ↦ ?_
        change .record uid ∈ (handle j r' s g).handlers.drop i
        rwa [(handlers_handle j r' s g).1]
    | removing g =>
        simp only [hpc, Option.some.injEq] at hstep
        subst hstep
        refine h.mono id (hkeep { s with handlers := s.handlers.erase g } rfl) fun i hi hmem ↦ ?_
        obtain ⟨hne, hpassed⟩ := hsafe j g i rfl hpc hi
        exact mem_drop_erase hmem hne hpassed

theorem reaches_step {r : LogRecord} {uid : String} {a : Action κ} (h : Reaches k r uid s)
    (hfilter : testUidFilter uid r.name = true) (hsafe : Undisturbed k {.record uid} s a)
    (hstep : step s a = some s') : Reaches k r uid s' := by
  -- A thread that begins something was idle, so that `k` is at its end.
  have hbegin {j : κ} {t : State κ} {pc : Pc} (hidle : s.pc j = .idle) (ht : t.pc = s.pc)
      (hhandlers : t.handlers = s.handlers) (hrecords : t.records = s.records) : Reaches k r uid (t.setPc j pc) := by
    by_cases hjk : j = k
    · subst hjk
      obtain h | ⟨i, hpc, -⟩ | ⟨i, g, hpc, -⟩ := h
      · exact .inl (hrecords ▸ h)
      · rw [hidle] at hpc
        cases hpc
      · rw [hidle] at hpc
        cases hpc
    · refine h.mono (fun hmem ↦ hrecords ▸ hmem) ?_ fun i _ hmem ↦ hhandlers ▸ hmem
      rw [← ht]
      exact Function.update_of_ne (Ne.symm hjk) ..
  cases a with
  | addHandler g =>
      simp only [step, Option.ite_none_right_eq_some, Option.some.injEq] at hstep
      obtain ⟨-, rfl⟩ := hstep
      refine h.mono id rfl fun i _ hmem ↦ ?_
      change .record uid ∈ (s.handlers ++ [g]).drop i
      rw [List.drop_append]
      exact List.mem_append_left _ hmem
  | log j r' =>
      simp only [step, Option.ite_none_right_eq_some, Option.some.injEq] at hstep
      obtain ⟨hidle, rfl⟩ := hstep
      exact hbegin (t := { s with logged := s.logged ++ [(j, r')] }) hidle rfl rfl rfl
  | remove j uid' =>
      simp only [step, Option.ite_none_right_eq_some, Option.some.injEq] at hstep
      obtain ⟨hidle, rfl⟩ := hstep
      exact hbegin hidle rfl rfl rfl
  | step j => exact reaches_threadStep h hfilter hsafe hstep

omit [DecidableEq κ] in
/-- What it is for a walk over the handlers to be disturbed. -/
theorem not_undisturbed {H : Set Handler} {t : State κ} {a : Action κ} (ha : ¬Undisturbed k H t a) :
    ∃ k' g i, a = .step k' ∧ t.pc k' = .removing g ∧ (t.pc k).cursor = some i ∧ (g ∈ H ∨ g ∈ t.handlers.take i) := by
  simp only [Undisturbed, not_forall, not_and, not_not] at ha
  obtain ⟨k', g, i, hstep, hpc, hi, hor⟩ := ha
  exact ⟨k', g, i, hstep, hpc, hi, or_iff_not_imp_left.mpr hor⟩

/-- A handler that `k` takes out is gone, or ahead of `k`, or in its hands. -/
def Removes (k : κ) (uid : String) (s : State κ) : Prop :=
  .record uid ∉ s.handlers ∨ (∃ i, s.pc k = .searching uid i ∧ .record uid ∈ s.handlers.drop i) ∨
    s.pc k = .removing (.record uid)

omit [DecidableEq κ] in
/-- What others do, with the handlers that are ahead of `k` or with that of the test. -/
theorem Removes.mono {uid : String} (h : Removes k uid s) (hpc : s'.pc k = s.pc k)
    (hsub : ∀ g ∈ s'.handlers, g ∈ s.handlers ∨ g ≠ .record uid)
    (hdrop : ∀ i, (s.pc k).cursor = some i → .record uid ∈ s.handlers.drop i →
      .record uid ∈ s'.handlers.drop i ∨ .record uid ∉ s'.handlers) : Removes k uid s' := by
  obtain h | ⟨i, hi, h⟩ | hi := h
  · refine .inl fun hmem ↦ ?_
    obtain hmem | hne := hsub _ hmem
    · exact h hmem
    · exact hne rfl
  · obtain h | h := hdrop i (by rw [hi]; rfl) h
    · exact .inr (.inl ⟨i, hpc.trans hi, h⟩)
    · exact .inl h
  · exact .inr (.inr (hpc.trans hi))

theorem Removes.erase {uid : String} (hinv : Inv s) (h : Removes k uid s) {g : Handler}
    (hpassed : ∀ i, (s.pc k).cursor = some i → g ∉ s.handlers.take i) :
    Removes k uid { s with handlers := s.handlers.erase g } := by
  refine h.mono rfl (fun g' hg' ↦ .inl (List.mem_of_mem_erase hg')) fun i hi hmem ↦ ?_
  by_cases hg : g = .record uid
  · subst hg
    exact .inr hinv.nodup.not_mem_erase
  · exact .inl (mem_drop_erase hmem hg (hpassed i hi))

theorem removes_threadStep {uid : String} {j : κ} (hinv : Inv s) (h : Removes k uid s)
    (hsafe : Undisturbed k ∅ s (.step j)) (hstep : threadStep j s = some s') : Removes k uid s' := by
  unfold threadStep at hstep
  by_cases hjk : j = k
  · subst hjk
    cases hpc : s.pc j with
    | idle => simp [hpc] at hstep
    | dispatching r i =>
        have hno : .record uid ∉ s.handlers := by simpa [Removes, hpc] using h
        simp only [hpc] at hstep
        split at hstep <;> obtain rfl := Option.some.inj hstep
        · exact .inl hno
        · exact .inl hno
    | handling r i g =>
        have hno : .record uid ∉ s.handlers := by simpa [Removes, hpc] using h
        simp only [hpc, Option.some.injEq] at hstep
        subst hstep
        refine .inl ?_
        change .record uid ∉ (handle j r s g).handlers
        rwa [(handlers_handle j r s g).1]
    | searching uid' i =>
        simp only [hpc] at hstep
        obtain hno | ⟨i', hpc', hahead⟩ | hpc' := h
        · split at hstep <;> obtain rfl := Option.some.inj hstep
          · exact .inl hno
          · exact .inl hno
        · cases hpc.symm.trans hpc'
          split at hstep
          · rename_i hnone
            rw [List.drop_eq_nil_of_le (List.getElem?_eq_none_iff.mp hnone)] at hahead
            cases hahead
          · rename_i g hg
            obtain rfl := Option.some.inj hstep
            rw [drop_of_getElem? hg, List.mem_cons] at hahead
            by_cases hguid : g = .record uid
            · refine .inr (.inr ?_)
              rw [if_pos hguid, hguid]
              exact Function.update_self ..
            · refine .inr (.inl ⟨i + 1, ?_, hahead.resolve_left (Ne.symm hguid)⟩)
              rw [if_neg hguid]
              exact Function.update_self ..
        · cases hpc.symm.trans hpc'
    | removing g =>
        simp only [hpc, Option.some.injEq] at hstep
        subst hstep
        obtain hno | ⟨i', hpc', -⟩ | hpc' := h
        · exact .inl fun hmem ↦ hno (List.mem_of_mem_erase hmem)
        · cases hpc.symm.trans hpc'
        · cases hpc.symm.trans hpc'
          exact .inl hinv.nodup.not_mem_erase
  · have hkeep {pc : Pc} {t : State κ} (ht : Removes k uid t) : Removes k uid (t.setPc j pc) :=
      ht.mono (Function.update_of_ne (Ne.symm hjk) ..) (fun _ ↦ .inl) fun _ _ ↦ .inl
    cases hpc : s.pc j with
    | idle => simp [hpc] at hstep
    | dispatching r i | searching uid' i =>
        simp only [hpc] at hstep
        split at hstep <;> obtain rfl := Option.some.inj hstep
        · exact hkeep h
        · exact hkeep h
    | handling r i g =>
        simp only [hpc, Option.some.injEq] at hstep
        subst hstep
        obtain ⟨hhandlers, hpcs⟩ := handlers_handle j r s g
        refine hkeep (h.mono (congrFun hpcs k) (fun g' hg' ↦ .inl (hhandlers ▸ hg')) fun i' _ hmem ↦ .inl ?_)
        rwa [hhandlers]
    | removing g =>
        simp only [hpc, Option.some.injEq] at hstep
        subst hstep
        exact hkeep (h.erase hinv fun i hi ↦ (hsafe j g i rfl hpc hi).2)

theorem removes_step {uid : String} {a : Action κ} (hinv : Inv s) (hknown : .record uid ∈ s.known)
    (h : Removes k uid s) (hsafe : Undisturbed k ∅ s a) (hstep : step s a = some s') :
    .record uid ∈ s'.known ∧ Removes k uid s' := by
  have hbegin {j : κ} {t : State κ} {pc : Pc} (hidle : s.pc j = .idle) (ht : t.pc = s.pc)
      (hhandlers : t.handlers = s.handlers) : Removes k uid (t.setPc j pc) := by
    by_cases hjk : j = k
    · subst hjk
      have hno : .record uid ∉ s.handlers := by simpa [Removes, hidle] using h
      exact .inl fun hmem ↦ hno (hhandlers ▸ hmem)
    · refine h.mono ?_ (fun g hg ↦ .inl (hhandlers ▸ hg)) fun i _ hmem ↦ .inl (hhandlers ▸ hmem)
      rw [← ht]
      exact Function.update_of_ne (Ne.symm hjk) ..
  cases a with
  | addHandler g =>
      simp only [step, Option.ite_none_right_eq_some, Option.some.injEq] at hstep
      obtain ⟨hnew, rfl⟩ := hstep
      refine ⟨List.mem_append_left _ hknown, h.mono rfl (fun g' hg' ↦ ?_) fun i _ hmem ↦ .inl ?_⟩
      · obtain hg' | hg' := List.mem_append.mp hg'
        · exact .inl hg'
        · refine .inr ?_
          rintro rfl
          exact hnew (List.mem_singleton.mp hg' ▸ hknown)
      · change .record uid ∈ (s.handlers ++ [g]).drop i
        rw [List.drop_append]
        exact List.mem_append_left _ hmem
  | log j r =>
      simp only [step, Option.ite_none_right_eq_some, Option.some.injEq] at hstep
      obtain ⟨hidle, rfl⟩ := hstep
      exact ⟨hknown, hbegin (t := { s with logged := s.logged ++ [(j, r)] }) hidle rfl rfl⟩
  | remove j uid' =>
      simp only [step, Option.ite_none_right_eq_some, Option.some.injEq] at hstep
      obtain ⟨hidle, rfl⟩ := hstep
      exact ⟨hknown, hbegin hidle rfl rfl⟩
  | step j =>
      refine ⟨?_, removes_threadStep hinv h hsafe hstep⟩
      rwa [known_threadStep hstep]

/-- When `remove_record_handler` is over, the handler of the test is not in the list, or
in the meantime a handler was taken out that the call had passed. -/
theorem remove_removes {as bs : List (Action κ)} {s₀ s₁ s₂ : State κ} {uid : String}
    (hbefore : runActions step as {} = some s₀) (hknown : .record uid ∈ s₀.known)
    (hremove : step s₀ (.remove k uid) = some s₁) (hrun : runActions step bs s₁ = some s₂)
    (hover : s₂.pc k = .idle) :
    .record uid ∉ s₂.handlers ∨ ∃ pre k' post t g i, bs = pre ++ .step k' :: post ∧
      runActions step pre s₁ = some t ∧ t.pc k' = .removing g ∧ (t.pc k).cursor = some i ∧
      g ∈ t.handlers.take i := by
  simp only [step, Option.ite_none_right_eq_some, Option.some.injEq] at hremove
  obtain ⟨-, rfl⟩ := hremove
  have hinv : Inv (s₀.setPc k (.searching uid 0)) := (inv_run hbefore).setPc (by simp) (by simp)
  by_cases hsafe : RunMeets step (Undisturbed k ∅) bs (s₀.setPc k (.searching uid 0))
  · refine .inl ?_
    have hbegin : Removes k uid (s₀.setPc k (.searching uid 0)) := by
      by_cases hmem : .record uid ∈ s₀.handlers
      · exact .inr (.inl ⟨0, Function.update_self .., hmem⟩)
      · exact .inl hmem
    have hend := (run_invariant (I := fun s ↦ Inv s ∧ .record uid ∈ s.known ∧ Removes k uid s)
      (fun _ _ _ h hsafe hstep ↦ ⟨inv_step h.1 hstep, removes_step h.1 h.2.1 h.2.2 hsafe hstep⟩)
      ⟨hinv, hknown, hbegin⟩ hsafe hrun).2.2
    simpa [Removes, hover] using hend
  · refine .inr ?_
    obtain ⟨pre, a, post, t, rfl, hpre, ha⟩ := exists_of_not_runMeets hsafe
    obtain ⟨k', g, i, rfl, hpc, hi, hg⟩ := not_undisturbed ha
    exact ⟨pre, k', post, t, g, i, rfl, hpre, hpc, hi, by simpa using hg⟩

/-- Two tests end at the same time, and the handler of `"b"` is missed. -/
theorem remove_removes_missed :
    let before : List (Action Bool) := [.addHandler (.record "a"), .addHandler (.record "b"), .remove true "a"]
    let during : List (Action Bool) := [.step true, .step false, .step true, .step false]
    ∃ s₀ s₁ s₂, runActions step before {} = some s₀ ∧ step s₀ (.remove false "b") = some s₁ ∧
      runActions step during s₁ = some s₂ ∧
      (.record "b" ∉ s₂.handlers ∨ ∃ pre k' post t g i, during = pre ++ .step k' :: post ∧
        runActions step pre s₁ = some t ∧ t.pc k' = .removing g ∧ (t.pc false).cursor = some i ∧
        g ∈ t.handlers.take i) := by
  intro before during
  have hbefore : runActions step before ({} : State Bool) = some _ := rfl
  have hremove : step ((runActions step before ({} : State Bool)).getD {}) (.remove false "b") = some _ := rfl
  obtain ⟨s₂, hrun, hover⟩ := Option.map_eq_some_iff.mp (by decide +kernel :
    (runActions step during ((runActions step (before ++ [.remove false "b"]) ({} : State Bool)).getD {})).map
      (fun s ↦ s.pc false) = some .idle)
  exact ⟨_, _, s₂, hbefore, hremove, hrun, remove_removes hbefore (by decide) hremove hrun hover⟩

end Walks

end OpenHtf.LogRouting
