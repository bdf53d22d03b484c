import OpenHtf.TestExecutor

/-!
# Diagnoses and where they are kept

A diagnosis goes to the store, to the test record and to the record of its
phase.  `Ledger` says what a `DiagnosesManager` has accepted, in terms of what
the diagnosers returned; the three places agree with it after any calls.
-/

set_option autoImplicit false

namespace OpenHtf

open Act

/-! ## What is accepted -/

/-- Phase diagnosers and test diagnosers. -/
inductive DiagnoserKind where
  | phase | test
  deriving DecidableEq

def DiagnoserReturn.items : DiagnoserReturn → List DiagItem
  | raised _ => []
  | nothing => []
  | single d => [.diagnosis d]
  | invalid => []
  | iterable items => items

/-- The diagnosis that is accepted for an item, unless the item is invalid: it is
no diagnosis, its result is of another type, or it is internal where that is
not allowed. -/
def Diagnoser.accept (diagnoser : Diagnoser) (kind : DiagnoserKind) : DiagItem → Option Diagnosis
  | .diagnosis d =>
      if d.result.resultType ≠ diagnoser.resultType ∨ (kind = .test ∧ d.isInternal = true) then none
      else if diagnoser.alwaysFail then d.evolveIsFailure.toOption
      else some d
  | .other _ => none
  | .raises _ => none

/-- The items before the first invalid one, as they are accepted. -/
def Diagnoser.accepted (diagnoser : Diagnoser) (kind : DiagnoserKind) (items : List DiagItem) :
    List Diagnosis :=
  (items.takeWhile fun item ↦ (diagnoser.accept kind item).isSome).filterMap (diagnoser.accept kind)

structure Acceptance where
  diagnoser : Diagnoser
  diagnosis : Diagnosis

/-- All that was accepted, and what was accepted for the phase that started last. -/
structure Ledger where
  moment : ℕ
  all : List Acceptance := []
  phase : List Diagnosis := []

/-! ## The calls -/

/-- A call of `execute_phase_diagnoser` or `execute_test_diagnoser`, or the start
of the phase whose `PhaseState` the next ones are given. -/
inductive ManagerCall where
  | startPhase (p : PhaseDescriptor)
  | execute (kind : DiagnoserKind) (diagnoser : Diagnoser)

/-- The body of the loop of the two methods. -/
def DiagnoserKind.consume : DiagnoserKind → Diagnosis → Exec Unit
  | phase => acceptPhaseDiagnosis
  | test => TestExecutor.acceptTestDiagnosis

def ManagerCall.run : ManagerCall → Exec Unit
  | startPhase p => do
    let now ← timeMillis
    Act.modify fun s ↦ { s with phaseState := .fromDescriptor p s.testState.diagnosesStore now }
  | execute kind diagnoser => runDiagnoser diagnoser kind.consume

/-- The state after some calls, whether they raised or not. -/
def runCalls (calls : List ManagerCall) (s : RunState) : RunState :=
  calls.foldl (fun s call ↦ (call.run s).2) s

namespace Ledger

def add (kind : DiagnoserKind) (diagnoser : Diagnoser) (l : Ledger) (d : Diagnosis) : Ledger :=
  { l with
    all := l.all ++ [⟨diagnoser, d⟩]
    phase := if kind = .phase then l.phase ++ [d] else l.phase }

def step (l : Ledger) : ManagerCall → Ledger
  | .startPhase _ => { l with moment := l.moment + 1, phase := [] }
  | .execute kind diagnoser =>
      (diagnoser.accepted kind (diagnoser.run l.moment).items).foldl (add kind diagnoser)
        { l with moment := l.moment + 1 }

end Ledger

/-- The store, the record of the test and the record of the phase hold what the
ledger says. -/
structure DiagnosesAgree (s : RunState) (l : Ledger) : Prop where
  moment : s.moment = l.moment
  stored : s.testState.diagnosesStore.diagnoses = l.all.map (·.diagnosis)
  has : ∀ r, s.testState.diagnosesStore.hasDiagnosisResult r = true ↔
    ∃ a ∈ l.all, a.diagnosis.result.value = r.value
  latest : ∀ r, s.testState.diagnosesStore.getDiagnosis r =
    (l.all.reverse.map (·.diagnosis)).find? (·.result.value == r.value)
  recorded : s.testRecord.diagnoses = (l.all.map (·.diagnosis)).filter (!·.isInternal)
  results : s.phaseState.phaseRecord.diagnosisResults =
    (l.phase.filter (!·.isFailure)).map (·.result)
  failures : s.phaseState.phaseRecord.failureDiagnosisResults =
    (l.phase.filter (·.isFailure)).map (·.result)

/-! ## One diagnosis -/

theorem Diagnoser.accepted_cons (diagnoser : Diagnoser) (kind : DiagnoserKind) (item : DiagItem)
    (rest : List DiagItem) :
    diagnoser.accepted kind (item :: rest) =
      match diagnoser.accept kind item with
      | none => []
      | some d => d :: diagnoser.accepted kind rest := by
  cases h : diagnoser.accept kind item with
  | none => simp [accepted, h]
  | some d => simp [accepted, h]

theorem Diagnoser.isFailure_of_accept {diagnoser : Diagnoser} {kind : DiagnoserKind} {item : DiagItem}
    {d : Diagnosis} (h : diagnoser.accept kind item = some d) (hfail : diagnoser.alwaysFail = true) :
    d.isFailure = true := by
  cases item with
  | diagnosis d' =>
      simp only [accept, hfail, if_true, Diagnosis.evolveIsFailure] at h
      split_ifs at h
      · cases h
      · obtain rfl := Option.some.inj h
        rfl
  | other _ => cases h
  | raises _ => cases h

theorem DiagnosesStore.getDiagnosis_addDiagnosis (store : DiagnosesStore) (d : Diagnosis)
    (r : DiagResult) : (store.addDiagnosis d).getDiagnosis r =
      if r.value = d.result.value then some d else store.getDiagnosis r := by
  simp [getDiagnosis, addDiagnosis]

theorem DiagnosesStore.hasDiagnosisResult_eq (store : DiagnosesStore) (r : DiagResult) :
    store.hasDiagnosisResult r = (store.getDiagnosis r).isSome :=
  any_key_eq_isSome_lookup _ _

/-- A state that has changed as the acceptance of a diagnosis changes it. -/
structure Accepted (kind : DiagnoserKind) (d : Diagnosis) (s s' : RunState) : Prop where
  moment : s'.moment = s.moment
  store : s'.testState.diagnosesStore = s.testState.diagnosesStore.addDiagnosis d
  recorded : s'.testRecord.diagnoses =
    s.testRecord.diagnoses ++ if d.isInternal then [] else [d]
  phaseState : s'.phaseState = if kind = .phase then s.phaseState.addDiagnosis d else s.phaseState

theorem consume_spec {kind : DiagnoserKind} {d : Diagnosis} {s : RunState}
    (h : ¬(kind = .test ∧ d.isInternal = true)) :
    wp (kind.consume d) (fun _ ↦ Accepted kind d s) (fun _ _ ↦ False) s := by
  cases kind with
  | phase =>
      simp only [DiagnoserKind.consume, acceptPhaseDiagnosis, recordDiagnosis, storeDiagnosis, noteStep,
        wp_bind, wp_modify, wp_ite]
      cases hi : d.isInternal with
      | true => exact ⟨rfl, rfl, by simp [hi]; rfl, rfl⟩
      | false => exact ⟨rfl, rfl, by simp [hi]; rfl, rfl⟩
  | test =>
      have hi : d.isInternal = false := by simpa using h
      simp only [DiagnoserKind.consume, TestExecutor.acceptTestDiagnosis, recordDiagnosis,
        storeDiagnosis, noteStep, wp_bind, wp_modify, hi, Bool.false_eq_true, if_false]
      exact ⟨rfl, rfl, by simp [hi]; rfl, rfl⟩

theorem DiagnosesAgree.add {kind : DiagnoserKind} {diagnoser : Diagnoser} {d : Diagnosis}
    {s s' : RunState} {l : Ledger} (h : DiagnosesAgree s l) (hs : Accepted kind d s s') :
    DiagnosesAgree s' (l.add kind diagnoser d) where
  moment := hs.moment.trans h.moment
  stored := by simp [hs.store, DiagnosesStore.addDiagnosis, h.stored, Ledger.add]
  latest r := by
    rw [hs.store, DiagnosesStore.getDiagnosis_addDiagnosis, h.latest r]
    by_cases hr : r.value = d.result.value
    · simp [Ledger.add, hr]
    · simp [Ledger.add, hr, Ne.symm hr]
  has r := by
    have hhas := h.has r
    rw [DiagnosesStore.hasDiagnosisResult_eq] at hhas ⊢
    rw [hs.store, DiagnosesStore.getDiagnosis_addDiagnosis]
    by_cases hr : r.value = d.result.value
    · simp [Ledger.add, hr]
    · simp only [hr, if_false, hhas, Ledger.add, List.mem_append, List.mem_singleton]
      constructor
      · rintro ⟨a, ha, har⟩
        exact ⟨a, .inl ha, har⟩
      · rintro ⟨a, ha | rfl, har⟩
        · exact ⟨a, ha, har⟩
        · exact absurd har.symm hr
  recorded := by
    rw [hs.recorded, h.recorded]
    cases hi : d.isInternal <;> simp [Ledger.add, hi]
  results := by
    rw [hs.phaseState]
    cases kind with
    | test => exact h.results
    | phase =>
        cases hf : d.isFailure <;> simp [PhaseState.addDiagnosis, Ledger.add, hf, h.results]
  failures := by
    rw [hs.phaseState]
    cases kind with
    | test => exact h.failures
    | phase =>
        cases hf : d.isFailure <;> simp [PhaseState.addDiagnosis, Ledger.add, hf, h.failures]

/-! ## One call -/

section Call

variable {kind : DiagnoserKind} {diagnoser : Diagnoser} {d d' : Diagnosis} {s : RunState} {l : Ledger}

theorem verifyAndFixDiagnosis_of_accept (h : diagnoser.accept kind (.diagnosis d) = some d') :
    verifyAndFixDiagnosis diagnoser d = pure d' ∧ ¬(kind = .test ∧ d'.isInternal = true) := by
  simp only [Diagnoser.accept] at h
  split_ifs at h with hbad hfail
  · obtain ⟨htype, -⟩ := not_or.mp hbad
    have htype : d.result.resultType = diagnoser.resultType := not_not.mp htype
    cases hi : d.isInternal with
    | true => simp [Diagnosis.evolveIsFailure, hi, Except.toOption] at h
    | false =>
        simp only [Diagnosis.evolveIsFailure, hi, Except.toOption] at h
        obtain rfl := Option.some.inj h
        exact ⟨by simp [verifyAndFixDiagnosis, htype, hfail, Diagnosis.evolveIsFailure, hi], by simp⟩
  · obtain ⟨htype, hinternal⟩ := not_or.mp hbad
    have htype : d.result.resultType = diagnoser.resultType := not_not.mp htype
    obtain rfl := Option.some.inj h
    exact ⟨by simp [verifyAndFixDiagnosis, htype, hfail], hinternal⟩

/-- A diagnosis that is not accepted raises before it is put anywhere. -/
theorem consume_of_not_accept (h : diagnoser.accept kind (.diagnosis d) = none) (s : RunState) :
    wp (verifyAndFixDiagnosis diagnoser d) (fun d' ↦ wp (kind.consume d') (fun _ _ ↦ False)
      fun _ s' ↦ s' = s) (fun _ s' ↦ s' = s) s := by
  simp only [Diagnoser.accept] at h
  by_cases htype : d.result.resultType = diagnoser.resultType
  · cases hi : d.isInternal with
    | true =>
        cases hfail : diagnoser.alwaysFail with
        | true => simp [verifyAndFixDiagnosis, htype, hfail, Diagnosis.evolveIsFailure, hi]
        | false =>
            obtain rfl : kind = .test := by
              by_contra hkind
              simp [htype, hi, hfail, hkind] at h
            simp [verifyAndFixDiagnosis, htype, hfail, DiagnoserKind.consume,
              TestExecutor.acceptTestDiagnosis, hi]
    | false =>
        cases hfail : diagnoser.alwaysFail <;>
          simp [htype, hi, hfail, Diagnosis.evolveIsFailure, Except.toOption] at h
  · simp [verifyAndFixDiagnosis, htype]

theorem DiagnosesAgree.convertItems (h : DiagnosesAgree s l) (items : List DiagItem) :
    wp (OpenHtf.convertItems diagnoser kind.consume items)
      (fun _ s' ↦ DiagnosesAgree s' ((diagnoser.accepted kind items).foldl (.add kind diagnoser) l))
      (fun _ s' ↦ DiagnosesAgree s' ((diagnoser.accepted kind items).foldl (.add kind diagnoser) l))
      s := by
  induction items generalizing s l with
  | nil => exact h
  | cons item rest ih =>
      rw [Diagnoser.accepted_cons]
      cases item with
      | diagnosis d =>
          simp only [OpenHtf.convertItems, wp_bind]
          cases ha : diagnoser.accept kind (.diagnosis d) with
          | none =>
              refine (consume_of_not_accept ha s).mono (fun d' s' hd ↦ ?_) fun _ _ hs ↦ hs ▸ h
              exact hd.mono (fun _ _ hf ↦ hf.elim) fun _ _ hs ↦ hs ▸ h
          | some d' =>
              obtain ⟨hverify, hkind⟩ := verifyAndFixDiagnosis_of_accept ha
              rw [hverify, wp_pure]
              refine (consume_spec hkind).mono (fun _ s' hs ↦ ?_) fun _ _ hf ↦ hf.elim
              exact ih (h.add hs)
      | other typeName => exact h
      | raises e => exact ⟨h.moment, h.stored, h.has, h.latest, h.recorded, h.results, h.failures⟩

theorem DiagnosesAgree.call (h : DiagnosesAgree s l) (call : ManagerCall) :
    DiagnosesAgree (call.run s).2 (l.step call) := by
  cases call with
  | startPhase p =>
      exact ⟨congrArg (· + 1) h.moment, h.stored, h.has, h.latest, h.recorded, rfl, rfl⟩
  | execute kind diagnoser =>
      refine (wp_same (P := fun s' ↦ DiagnosesAgree s' _)).mp ?_
      simp only [ManagerCall.run, runDiagnoser, wp_bind, wp_callUser, Ledger.step, ← h.moment]
      have h₁ : DiagnosesAgree { s with moment := s.moment + 1 } { l with moment := s.moment + 1 } :=
        ⟨rfl, h.stored, h.has, h.latest, h.recorded, h.results, h.failures⟩
      cases hret : diagnoser.run s.moment with
      | raised e =>
          exact ⟨h₁.moment, h₁.stored, h₁.has, h₁.latest, h₁.recorded, h₁.results, h₁.failures⟩
      | nothing => exact h₁
      | invalid => exact h₁
      | iterable items => exact h₁.convertItems items
      | single d =>
          -- A single diagnosis is consumed as the only item of an iterable.
          have hone : wp (OpenHtf.convertItems diagnoser kind.consume [.diagnosis d]) _ _ _ :=
            h₁.convertItems [.diagnosis d]
          simp only [OpenHtf.convertItems, wp_bind, wp_pure] at hone
          simpa only [wp_bind, DiagnoserReturn.items] using hone

/-- What is written before an invalid item is all that is written. -/
theorem convertItems_append_invalid {bad : DiagItem} (hbad : diagnoser.accept kind bad = none)
    (good rest : List DiagItem) (s : RunState) :
    let after items := (convertItems diagnoser kind.consume items s).2
    (after (good ++ bad :: rest)).testState = (after good).testState ∧
      (after (good ++ bad :: rest)).phaseState = (after good).phaseState := by
  induction good generalizing s with
  | nil =>
      cases bad with
      | diagnosis d =>
          have hstop : wp (convertItems diagnoser kind.consume (.diagnosis d :: rest))
              (fun _ s' ↦ s' = s) (fun _ s' ↦ s' = s) s := by
            simp only [convertItems, wp_bind]
            refine (consume_of_not_accept hbad s).mono (fun d' s' hd ↦ ?_) fun _ _ hs ↦ hs
            exact hd.mono (fun _ _ hf ↦ hf.elim) fun _ _ hs ↦ hs
          have hs := (wp_same (P := (· = s))).mp hstop
          exact ⟨congrArg RunState.testState hs, congrArg RunState.phaseState hs⟩
      | other typeName => exact ⟨rfl, rfl⟩
      | raises e => exact ⟨rfl, rfl⟩
  | cons item good ih =>
      cases item with
      | diagnosis d =>
          simp only [List.cons_append, convertItems, bind_apply]
          rcases verifyAndFixDiagnosis diagnoser d s with ⟨e | d', s₁⟩
          · exact ⟨rfl, rfl⟩
          · simp only [andThen, bind_apply]
            rcases kind.consume d' s₁ with ⟨e | _, s₂⟩
            · exact ⟨rfl, rfl⟩
            · exact ih s₂
      | other typeName => exact ⟨rfl, rfl⟩
      | raises e => exact ⟨rfl, rfl⟩

/-- The items are converted without another look at `run`. -/
theorem convertItems_with_run (run : ℕ → DiagnoserReturn) (accept : Diagnosis → Exec Unit)
    (items : List DiagItem) :
    convertItems { diagnoser with run := run } accept items = convertItems diagnoser accept items := by
  induction items with
  | nil => rfl
  | cons item rest ih =>
      cases item with
      | diagnosis d => simp only [convertItems, ih, verifyAndFixDiagnosis]
      | other typeName => rfl
      | raises e => rfl

end Call

/-- What is accepted from a diagnoser that always fails is a failure. -/
def Ledger.AlwaysFails (l : Ledger) : Prop :=
  ∀ a ∈ l.all, a.diagnoser.alwaysFail = true → a.diagnosis.isFailure = true

theorem Ledger.AlwaysFails.step {l : Ledger} (h : l.AlwaysFails) (call : ManagerCall) :
    (l.step call).AlwaysFails := by
  cases call with
  | startPhase p => exact h
  | execute kind diagnoser =>
      have hadd (ds : List Diagnosis) (hds : ∀ d ∈ ds, diagnoser.alwaysFail = true → d.isFailure = true)
          (l : Ledger) (h : l.AlwaysFails) : (ds.foldl (add kind diagnoser) l).AlwaysFails := by
        induction ds generalizing l with
        | nil => exact h
        | cons d ds ih =>
            refine ih (fun d' hd' ↦ hds d' (List.mem_cons_of_mem d hd')) _ fun a ha ↦ ?_
            rcases List.mem_append.mp ha with ha | ha
            · exact h a ha
            · obtain rfl := List.mem_singleton.mp ha
              exact hds d List.mem_cons_self
      refine hadd _ (fun d hd hfail ↦ ?_) _ h
      obtain ⟨item, -, hitem⟩ := List.mem_filterMap.mp hd
      exact Diagnoser.isFailure_of_accept hitem hfail

/-! ## Any calls -/

theorem DiagnosesAgree.calls {s : RunState} {l : Ledger} (h : DiagnosesAgree s l)
    (calls : List ManagerCall) : DiagnosesAgree (runCalls calls s) (calls.foldl Ledger.step l) := by
  induction calls generalizing s l with
  | nil => exact h
  | cons call calls ih => exact ih (h.call call)

theorem Ledger.AlwaysFails.calls {l : Ledger} (h : l.AlwaysFails) (calls : List ManagerCall) :
    (calls.foldl Ledger.step l).AlwaysFails := by
  induction calls generalizing l with
  | nil => exact h
  | cons call calls ih => exact ih (h.step call)

/-- After any calls on a new store, record and phase state the store and the
records hold exactly what was accepted, an invalid item stops the acceptance, and
a diagnoser that always fails has made failures only. -/
theorem diagnoses_agree (calls : List ManagerCall) (s : RunState)
    (hstore : s.testState.diagnosesStore = {}) (hrecord : s.testRecord.diagnoses = [])
    (hresults : s.phaseState.phaseRecord.diagnosisResults = [])
    (hfailures : s.phaseState.phaseRecord.failureDiagnosisResults = []) :
    DiagnosesAgree (runCalls calls s) (calls.foldl Ledger.step { moment := s.moment }) ∧
      (calls.foldl Ledger.step { moment := s.moment }).AlwaysFails ∧
      ∀ (kind : DiagnoserKind) (diagnoser : Diagnoser) (good : List DiagItem) (bad : DiagItem)
        (rest : List DiagItem), diagnoser.accept kind bad = none →
        let after items := ((ManagerCall.execute kind
          { diagnoser with run := fun _ ↦ .iterable items }).run (runCalls calls s)).2
        (after (good ++ bad :: rest)).testState = (after good).testState ∧
          (after (good ++ bad :: rest)).phaseState = (after good).phaseState := by
  have hempty : DiagnosesAgree s { moment := s.moment } := by
    refine ⟨rfl, ?_, ?_, ?_, ?_, ?_, ?_⟩
    · simp [hstore]
    · simp [hstore, DiagnosesStore.hasDiagnosisResult]
    · simp [hstore, DiagnosesStore.getDiagnosis]
    · simp [hrecord]
    · simp [hresults]
    · simp [hfailures]
  refine ⟨hempty.calls calls, Ledger.AlwaysFails.calls (by simp [Ledger.AlwaysFails]) calls, ?_⟩
  intro kind diagnoser good bad rest hbad
  simp only [ManagerCall.run, runDiagnoser, bind_apply, callUser, andThen, convertItems_with_run]
  exact convertItems_append_invalid hbad good rest _

/-- A diagnoser that always fails returns a diagnosis, something else and another
diagnosis; a test diagnoser returns the first diagnosis as it is. -/
def mixedCalls : List ManagerCall :=
  let broken : Diagnosis := { result := ⟨0, "broken"⟩ }
  let late : Diagnosis := { result := ⟨0, "late"⟩ }
  let phaseDiagnoser : Diagnoser :=
    { name := "phase_diagnoser"
      resultType := 0
      alwaysFail := true
      run := fun _ ↦ .iterable [.diagnosis broken, .other "int", .diagnosis late] }
  let testDiagnoser : Diagnoser :=
    { name := "test_diagnoser", resultType := 0, run := fun _ ↦ .single broken }
  [.startPhase { id := 0, name := "measure" }, .execute .phase phaseDiagnoser,
    .execute .test testDiagnoser]

theorem diagnoses_agree_mixed :
    (runCalls mixedCalls {}).testRecord.diagnoses =
      [{ result := ⟨0, "broken"⟩, isFailure := true }, { result := ⟨0, "broken"⟩ }] ∧
    (runCalls mixedCalls {}).testState.diagnosesStore.getDiagnosis ⟨0, "broken"⟩ =
      some { result := ⟨0, "broken"⟩ } := by
  have h := (diagnoses_agree mixedCalls {} rfl rfl rfl rfl).1
  exact ⟨h.recorded.trans (by decide), (h.latest _).trans (by decide)⟩

end OpenHtf
