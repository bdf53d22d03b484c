import OpenHtf.PhaseRecords

/-!
# The repetition of a phase

`execute_phase` makes a bounded number of attempts.  Each of them adds a record,
and all but the last have a reason to be repeated.
-/

set_option autoImplicit false

namespace OpenHtf

open Act

/-! ## Reasons for another attempt -/

/-- The attempt returned REPEAT, or timed out, or failed, where that is a reason to
repeat it, or it is to be repeated anyway. -/
def PhaseOptions.Repeats (o : PhaseOptions) (a : Attempt) : Prop :=
  a.returned = .result .REPEAT ∨ (a.returned = .timeout ∧ o.repeatOnTimeout = true) ∨
    o.forceRepeat = true ∨ (o.repeatOnMeasurementFail = true ∧ a.record.outcome = some .FAIL)

/-- The record of an attempt that is repeated, as `_should_repeat` leaves it. -/
def Attempt.left (o : PhaseOptions) (a : Attempt) : PhaseRecord :=
  if a.record.outcome = some .FAIL ∧ o.looksBack = true then { a.record with outcome := some .SKIP }
  else a.record

variable {env : Env} {p : PhaseDescriptor} {rec : Option SubtestRecord}

/-- The result of the phase is the one in the record, unless it was replaced. -/
theorem ResultFrom.eq_of_not_raised {o o' : PhaseExecutionOutcome} (h : ResultFrom o o')
    (hstop : o' ≠ .result .STOP) (hraised : ∀ e, o' ≠ .raised e) : o' = o := by
  rcases h with rfl | rfl | ⟨e, rfl⟩
  · rfl
  · exact absurd rfl hstop
  · exact absurd rfl (hraised e)

namespace Attempt.EndedWith

variable {a : Attempt} {o : PhaseExecutionOutcome} (h : a.EndedWith p rec false o)

include h

theorem result : a.record.result = some o := by
  simpa using h.outcome

theorem from_returned : ResultFrom a.returned o := by
  obtain ⟨o', ho', hfrom⟩ := h.ends.result
  obtain rfl : o' = o := Option.some.inj (ho'.symm.trans h.result)
  exact hfrom

theorem not_failed (ho : o = .timeout ∨ o = .result .REPEAT) : a.record.outcome ≠ some .FAIL := by
  intro hfail
  have hfailed := h.ends.failed hfail
  rw [h.result] at hfailed
  rcases ho with rfl | rfl
  · exact hfailed.1 rfl
  · exact hfailed.2 rfl

end Attempt.EndedWith

theorem Attempt.left_of_not_failed {a : Attempt} (o : PhaseOptions) (h : a.record.outcome ≠ some .FAIL) :
    a.left o = a.record := if_neg fun hfail ↦ h hfail.1

/-- After an attempt that may be followed by another one. -/
theorem shouldRepeat_attempt {s : RunState} {a : Attempt} {o : PhaseExecutionOutcome}
    {before : List PhaseRecord} (ha : a.EndedWith p rec false o)
    (hs : s.testRecord.phases = before ++ [a.record]) :
    wp (shouldRepeat p o false)
      (fun again s' ↦ s'.sync = s.sync ∧ (again = true → p.options.Repeats a) ∧
        s'.testRecord.phases = before ++ [if again then a.left p.options else a.record])
      (fun _ _ ↦ False) s := by
  simp only [shouldRepeat, wp_ite, wp_pure]
  split
  · rename_i htimeout
    obtain ⟨ho, hoption⟩ := Bool.and_eq_true_iff.mp htimeout
    obtain rfl : o = .timeout := by simpa [PhaseExecutionOutcome.isTimeout] using ho
    have hreturned := ha.from_returned.eq_of_not_raised (by simp) (by simp)
    rw [if_pos trivial, a.left_of_not_failed _ (ha.not_failed (.inl rfl))]
    exact ⟨trivial, fun _ ↦ .inr (.inl ⟨hreturned.symm, hoption⟩), hs⟩
  split
  · rename_i hrepeat
    obtain rfl : o = .result .REPEAT := by simpa [PhaseExecutionOutcome.isRepeat] using hrepeat
    have hreturned := ha.from_returned.eq_of_not_raised (by simp) (by simp)
    rw [if_pos trivial, a.left_of_not_failed _ (ha.not_failed (.inr rfl))]
    exact ⟨trivial, fun _ ↦ .inl hreturned.symm, hs⟩
  split
  · rename_i hforce
    have hleft : a.left p.options = a.record := if_neg fun h ↦ by
      simp [PhaseOptions.looksBack, hforce] at h
    rw [if_pos trivial, hleft]
    exact ⟨trivial, fun _ ↦ .inr (.inr (.inl hforce)), hs⟩
  rename_i hforce
  split
  · rename_i hfail
    have hback : p.options.looksBack = true := by simp [PhaseOptions.looksBack, hfail, hforce]
    refine (lastRepeatFailed_spec false).mono ?_ ?_
    · rintro again s' ⟨hs', init, r, hr, hagain, hphases⟩
      obtain ⟨rfl, hlast⟩ := List.append_inj' (hr.symm.trans hs) rfl
      obtain rfl : r = a.record := List.singleton_inj.mp hlast
      refine ⟨hs', fun h ↦ .inr (.inr (.inr ⟨hfail, hagain.mp h⟩)), ?_⟩
      cases again with
      | true => simpa [Attempt.left, hagain.mp rfl, hback] using hphases
      | false => simpa using hphases
    · rintro e s' ⟨-, -, hnil, -⟩
      simp [hs] at hnil
  · exact ⟨trivial, by simp, by simpa using hs⟩

/-- At the limit nothing is changed. -/
theorem shouldRepeat_limit {s : RunState} {o : PhaseExecutionOutcome} (hs : s.testRecord.phases ≠ []) :
    wp (shouldRepeat p o true) (fun _ s' ↦ s'.sync = s.sync ∧ s'.testRecord.phases = s.testRecord.phases)
      (fun _ _ ↦ False) s := by
  simp only [shouldRepeat, wp_ite, wp_pure]
  split_ifs
  · exact ⟨trivial, trivial⟩
  · exact ⟨trivial, trivial⟩
  · exact ⟨trivial, trivial⟩
  · refine (lastRepeatFailed_spec true).mono ?_ fun _ _ h ↦ hs h.2.2.1
    rintro again s' ⟨hs', init, r, hr, -, hphases⟩
    exact ⟨hs', hphases.trans (by simpa using hr.symm)⟩
  · exact ⟨trivial, trivial⟩

/-! ## Rounds -/

/-- The attempts that the rounds of a phase make: those before the last one, and the
last one, which ends with the outcome `o`. -/
structure Attempts (p : PhaseDescriptor) (rec : Option SubtestRecord) (repeatsLeft : ℕ)
    (init : List Attempt) (last : Attempt) (s : RunState) (o : PhaseExecutionOutcome)
    (s' : RunState) : Prop where
  records : s'.testRecord.phases =
    s.testRecord.phases ++ (init.map (·.left p.options) ++ [last.record])
  threads : s'.sync.threads = s.sync.threads + (init.length + 1)
  bounded : init.length ≤ repeatsLeft
  ended : last.EndedWith p rec (init.length = repeatsLeft) o
  repeated : ∀ a ∈ init, (∃ o, a.EndedWith p rec false o) ∧ p.options.Repeats a

/-- A round begins with one attempt. -/
theorem executePhaseRound_attempt {s : RunState} {last : Bool} {next : Exec PhaseExecutionOutcome}
    {Q : PhaseExecutionOutcome → RunState → Prop} (hrun : p.options.runIf = none)
    (h : s.sync.Calm false)
    (hQ : ∀ (o : PhaseExecutionOutcome) (s' : RunState) (a : Attempt), s'.sync.Calm false → s'.sync.threads = s.sync.threads + 1 →
      s'.testRecord.phases = s.testRecord.phases ++ [a.record] → a.EndedWith p rec last o →
      wp (continueRound p last next o) Q (fun _ s' ↦ s'.Untamed) s') :
    wp (executePhaseRound env p rec last next) Q (fun _ s' ↦ s'.Untamed) s := by
  refine wp_executePhaseRound_go h fun i hi hthreads ↦ ?_
  rw [executePhaseOnce, hrun]
  refine (runPhaseOnce_attempt last hi).mono ?_ fun _ _ hu ↦ hu
  rintro o s' ⟨hs', hn, a, hphases, ha⟩
  exact hQ o s' a hs' (hn.trans (congrArg (· + 1) hthreads)) hphases ha

theorem executePhaseLoop_attempts (repeatsLeft : ℕ) {s : RunState} (hrun : p.options.runIf = none)
    (h : s.sync.Calm false) :
    wp (executePhaseLoop env p rec repeatsLeft)
      (fun o s' ↦ ∃ init last, Attempts p rec repeatsLeft init last s o s')
      (fun _ s' ↦ s'.Untamed) s := by
  induction repeatsLeft generalizing s with
  | zero =>
      refine executePhaseRound_attempt hrun h fun o s₁ a h₁ hthreads hphases ha ↦ ?_
      unfold continueRound
      rw [wp_bind]
      refine (shouldRepeat_limit (by simp [hphases])).mono ?_ fun _ _ hf ↦ hf.elim
      rintro again s₂ ⟨hs₂, hphases₂⟩
      rw [Bool.not_true, Bool.and_false, if_neg Bool.false_ne_true]
      refine ⟨[], a, ⟨hphases₂.trans hphases, ?_, Nat.le_refl _, ha, by simp⟩⟩
      rw [hs₂, hthreads]
      rfl
  | succ repeatsLeft ih =>
      refine executePhaseRound_attempt hrun h fun o s₁ a h₁ hthreads hphases ha ↦ ?_
      unfold continueRound
      rw [wp_bind]
      refine (shouldRepeat_attempt ha hphases).mono ?_ fun _ _ hf ↦ hf.elim
      rintro again s₂ ⟨hs₂, hreason, hphases₂⟩
      rw [Bool.not_false, Bool.and_true, wp_ite]
      split
      · rename_i hagain
        rw [if_pos hagain] at hphases₂
        rw [wp_bind, noteThread, wp_modify]
        have h₂ : s₂.sync.Calm false := hs₂ ▸ h₁
        have hcalm : (s₂.mapSync Sync.repeatPhase).sync.Calm false := h₂.repeatPhase
        refine (ih hcalm).mono ?_ fun _ _ hu ↦ hu
        rintro o' s₃ ⟨init, last, hrest⟩
        refine ⟨a :: init, last, ?_, ?_, ?_, ?_, ?_⟩
        · have hphases₃ : (s₂.mapSync Sync.repeatPhase).testRecord.phases = _ := hphases₂
          rw [hrest.records, hphases₃]
          simp
        · have hthreads₂ : (s₂.mapSync Sync.repeatPhase).sync.threads = s.sync.threads + 1 :=
            (congrArg Sync.threads hs₂).trans hthreads
          rw [hrest.threads, hthreads₂, List.length_cons]
          omega
        · exact Nat.succ_le_succ hrest.bounded
        · simpa using hrest.ended
        · intro b hb
          rcases List.mem_cons.mp hb with rfl | hb
          · exact ⟨⟨o, ha⟩, hreason hagain⟩
          · exact hrest.repeated b hb
      · rename_i hdone
        rw [if_neg hdone] at hphases₂
        refine ⟨[], a, hphases₂, ?_, Nat.zero_le _, by simpa using ha, by simp⟩
        rw [hs₂, hthreads]
        rfl

/-! ## The whole execution -/

/-- The number of attempts that are allowed. -/
def PhaseOptions.maxAttempts (o : PhaseOptions) : ℤ := max 1 o.limit

/-- The attempts that one execution of a phase makes: one record for each of them, and
one thread; a reason for each of them but the last; the outcome of the last one. -/
structure Repetition (p : PhaseDescriptor) (rec : Option SubtestRecord) (init : List Attempt)
    (last : Attempt) (s : RunState) (o : PhaseExecutionOutcome) (s' : RunState) : Prop where
  bounded : (init.length + 1 : ℤ) ≤ p.options.maxAttempts
  records : s'.testRecord.phases =
    s.testRecord.phases ++ (init.map (·.left p.options) ++ [last.record])
  threads : s'.sync.threads = s.sync.threads + (init.length + 1)
  returns : ∀ a ∈ init ++ [last], p.CanReturn rec a.returned ∧
    ∃ r, a.record.result = some r ∧ ResultFrom a.returned r
  reasons : ∀ a ∈ init, p.options.Repeats a
  skipped : ∀ a ∈ init, a.record.result = some (.result .REPEAT) ∨
    (a.record.outcome = some .FAIL ∧ p.options.looksBack = true) →
      (a.left p.options).outcome = some .SKIP
  stopped : last.returned = .result .REPEAT → (init.length + 1 : ℤ) = p.options.maxAttempts →
    o = .result .STOP
  returned : ¬(last.returned = .result .REPEAT ∧ (init.length + 1 : ℤ) = p.options.maxAttempts) →
    last.record.result = some o

/-- `execute_phase` returns after attempts of this kind. -/
structure BoundedRepetition (env : Env) (p : PhaseDescriptor) (rec : Option SubtestRecord)
    (s : RunState) : Prop where
  returns : wp (executePhase env p rec) (fun o s' ↦ ∃ init last, Repetition p rec init last s o s')
    (fun _ _ ↦ False) s

theorem BoundedRepetition.isOk {s : RunState} (h : BoundedRepetition env p rec s) :
    (executePhase env p rec s).1.isOk = true := h.returns.isOk

theorem Attempt.left_skipped {a : Attempt} {o : PhaseExecutionOutcome} (ha : a.EndedWith p rec false o)
    (h : a.record.result = some (.result .REPEAT) ∨
      (a.record.outcome = some .FAIL ∧ p.options.looksBack = true)) :
    (a.left p.options).outcome = some .SKIP := by
  rcases h with hrepeat | hfail
  · have hskip := ha.ends.repeated (Bool.and_false _) hrepeat
    rw [a.left_of_not_failed]
    · exact hskip
    · rw [hskip]
      nofun
  · rw [Attempt.left, if_pos hfail]

theorem Attempts.repetition {init : List Attempt} {last : Attempt} {s s' : RunState}
    {o : PhaseExecutionOutcome}
    (h : Attempts p rec (p.options.limit - 1).toNat init last s o s') :
    Repetition p rec init last s o s' := by
  have hbounded := h.bounded
  have hlimit : init.length = (p.options.limit - 1).toNat ↔
      (init.length + 1 : ℤ) = p.options.maxAttempts := by
    unfold PhaseOptions.maxAttempts
    omega
  have hrepeats : (last.returned.isRepeat && decide (init.length = (p.options.limit - 1).toNat)) = true ↔
      last.returned = .result .REPEAT ∧ (init.length + 1 : ℤ) = p.options.maxAttempts := by
    rw [Bool.and_eq_true, decide_eq_true_iff, hlimit, PhaseExecutionOutcome.isRepeat, beq_iff_eq]
  have houtcome := h.ended.outcome
  constructor
  case bounded =>
    unfold PhaseOptions.maxAttempts
    omega
  case records => exact h.records
  case threads => exact h.threads
  case returns =>
    intro a ha
    rcases List.mem_append.mp ha with ha | ha
    · obtain ⟨⟨o', ha'⟩, -⟩ := h.repeated a ha
      exact ⟨ha'.returns, ha'.ends.result⟩
    · obtain rfl := List.mem_singleton.mp ha
      exact ⟨h.ended.returns, h.ended.ends.result⟩
  case reasons => exact fun a ha ↦ (h.repeated a ha).2
  case skipped =>
    intro a ha hreason
    obtain ⟨⟨o', ha'⟩, -⟩ := h.repeated a ha
    exact Attempt.left_skipped ha' hreason
  case stopped =>
    intro hrepeat hlast
    rwa [if_pos (hrepeats.mpr ⟨hrepeat, hlast⟩)] at houtcome
  case returned =>
    intro hnot
    rwa [if_neg (mt hrepeats.mp hnot)] at houtcome

/-- A phase that returns REPEAT whenever it is called. -/
def alwaysRepeated : PhaseDescriptor where
  id := 1
  name := "calibrate"
  func := fun _ ↦ { ends := .returned (some .REPEAT) }

/-- A phase whose measurement is partially set, with a validator that exits. -/
def exitingValidator : PhaseDescriptor where
  id := 1
  name := "measure"
  func := fun _ ↦
    { measure := fun _ ↦
        [{ name := "voltage"
           outcome := .PARTIALLY_SET
           validators := [⟨"exits", fun _ ↦ .error ⟨.SystemExit, [.BaseException], ""⟩, none⟩] }] }

end OpenHtf
