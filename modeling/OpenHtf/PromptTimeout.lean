import OpenHtf.UserInput

/-!
# Prompts that time out

One thread makes its calls of `prompt` one after the other, while any thread may
respond.  `wait_for_prompt` raises `PromptUnansweredError` without a call of
`remove_prompt`, so that a prompt which is still active when its call wakes up
stays behind, and the next call raises `MultiplePromptsError`.
-/

set_option autoImplicit false

namespace OpenHtf.UserInput

variable {θ : Type}

/-- The calls of `prompt` are made by the thread; the others respond. -/
def ByThread (t : θ) : Action θ → Prop
  | .startPrompt t' .. => t' = t
  | .waitForPrompt t' => t' = t
  | .timeout t' => t' = t
  | .wake t' => t' = t
  | .respond .. => True
  | .removePrompt => True

/-- The event ends a call of `prompt` that made its prompt active. -/
def Ends : Event θ → Prop
  | .returned .. => True
  | .unanswered .. => True
  | _ => False

/-- No call of `prompt` leaves a prompt behind, and none finds one. -/
structure NoPromptLeft (s : State θ) : Prop where
  neverMultiple : ∀ t, .multiplePrompts t ∉ s.history
  ended : Each (fun pre e ↦ Ends e → activeIds pre = []) s.history

/-- A call of `prompt` that waits reads the response after its prompt was
answered or removed. -/
def RemovedBeforeWake (s : State θ) : Action θ → Prop
  | .wake _ => s.prompt = none
  | _ => True

variable [DecidableEq θ]

/-! ## What one thread keeps -/

structure OneThread (t : θ) (s : State θ) : Prop where
  inv : Inv s
  others : ∀ t', t' ≠ t → s.pc t' = .idle
  idle : s.pc t = .idle → s.prompt = none
  noneLeft : NoPromptLeft s

section Steps

variable {t : θ} {s s' : State θ}

omit [DecidableEq θ] in
theorem NoPromptLeft.record (h : NoPromptLeft s) {e : Event θ} (hmultiple : ∀ t, e ≠ .multiplePrompts t)
    (hends : Ends e → activeIds s.history = []) : NoPromptLeft (s.record e) where
  neverMultiple t' hmem := by
    rcases List.mem_append.mp hmem with hmem | hmem
    · exact h.neverMultiple t' hmem
    · exact hmultiple t' (List.mem_singleton.mp hmem).symm
  ended := h.ended.concat hends

omit [DecidableEq θ] in
theorem NoPromptLeft.congr (h : NoPromptLeft s) (hhistory : s'.history = s.history) :
    NoPromptLeft s' := by
  constructor
  · rw [hhistory]
    exact h.neverMultiple
  · rw [hhistory]
    exact h.ended

theorem others_setPc (h : ∀ t', t' ≠ t → s.pc t' = .idle) (pc : Pc) :
    ∀ t', t' ≠ t → (s.setPc t pc).pc t' = .idle := by
  intro t' ht'
  exact (Function.update_of_ne ht' pc s.pc).trans (h t' ht')

omit [DecidableEq θ] in
theorem OneThread.activeIds_eq (h : OneThread t s) (hprompt : s.prompt = none) :
    activeIds s.history = [] := by
  rw [h.inv.active, hprompt]
  rfl

/-- The prompt of a thread between its calls is gone, so that a start has no
other call to disturb. -/
theorem OneThread.uncontended (h : OneThread t s) {a : Action θ} (ha : ByThread t a)
    (hstep : step s a = some s') : Uncontended s a := by
  cases stepped hstep with
  | startPrompt t₀ message textInput imageUrl hidle =>
      obtain rfl : t₀ = t := ha
      intro _ t'
      by_cases ht' : t' = t₀
      · exact ht' ▸ hidle
      · exact h.others t' ht'
  | waitForPrompt | timeout | wake | respond | removePrompt => trivial

theorem OneThread.startPrompt (h : OneThread t s) (hidle : s.pc t = .idle) (message : String)
    (textInput : Bool) (imageUrl : Option String)
    (hinv : Inv (s.startPrompt t message textInput imageUrl)) :
    OneThread t (s.startPrompt t message textInput imageUrl) := by
  have hprompt := h.idle hidle
  refine ⟨hinv, ?_, ?_, ?_⟩ <;> simp only [State.startPrompt, hprompt]
  · exact others_setPc h.others _
  · intro hpc
    simp [State.setPc] at hpc
  · exact (h.noneLeft.record (e := .started t s.prompts) (by simp) False.elim).congr rfl

/-- The end of a call whose prompt is no longer active. -/
theorem OneThread.readResponse (h : OneThread t s) (hprompt : s.prompt = none) (id : ℕ)
    (hinv : Inv (s.readResponse t id)) : OneThread t (s.readResponse t id) := by
  have hnone := h.activeIds_eq hprompt
  refine ⟨hinv, ?_, ?_, ?_⟩ <;> cases hresponse : s.response <;>
    simp only [State.readResponse, hresponse]
  · exact others_setPc h.others _
  · exact others_setPc h.others _
  · exact fun _ ↦ hprompt
  · exact fun _ ↦ hprompt
  · exact (h.noneLeft.record (e := .unanswered t id) (by simp) fun _ ↦ hnone).congr rfl
  · rename_i response
    exact (h.noneLeft.record (e := .returned t id response) (by simp) fun _ ↦ hnone).congr rfl

theorem OneThread.waitForPrompt (h : OneThread t s) (id : ℕ) (hinv : Inv (s.waitForPrompt t id)) :
    OneThread t (s.waitForPrompt t id) := by
  unfold State.waitForPrompt at hinv ⊢
  split
  · rename_i hprompt
    rw [if_pos hprompt] at hinv
    refine ⟨hinv, others_setPc h.others _, ?_, h.noneLeft.congr rfl⟩
    intro hpc
    simp [State.setPc] at hpc
  · rename_i hprompt
    rw [if_neg hprompt] at hinv
    exact h.readResponse (Option.not_isSome_iff_eq_none.mp hprompt) id hinv

theorem OneThread.timeout (h : OneThread t s) (id : ℕ)
    (hinv : Inv ((s.record (.timedOut t id)).setPc t (.woken id))) :
    OneThread t ((s.record (.timedOut t id)).setPc t (.woken id)) := by
  refine ⟨hinv, others_setPc (s := s.record _) h.others _, ?_, ?_⟩
  · intro hpc
    simp [State.setPc] at hpc
  · exact (h.noneLeft.record (e := .timedOut t id) (by simp) False.elim).congr rfl

omit [DecidableEq θ] in
theorem idle_notifyAll {t' : θ} : s.notifyAll.pc t' = .idle ↔ s.pc t' = .idle := by
  simp only [State.notifyAll]
  cases s.pc t' <;> simp

omit [DecidableEq θ] in
theorem OneThread.respond (h : OneThread t s) (id : ℕ) (response : String)
    (hinv : Inv (s.respond id response)) : OneThread t (s.respond id response) := by
  unfold State.respond at hinv ⊢
  cases hprompt : s.prompt with
  | none => exact h
  | some p =>
      simp only [hprompt] at hinv ⊢
      split
      · rename_i hid
        rw [if_pos hid] at hinv
        refine ⟨hinv, fun t' ht' ↦ idle_notifyAll.mpr (h.others t' ht'), fun _ ↦ rfl, ?_⟩
        exact (h.noneLeft.record (e := .responded id response) nofun nofun).congr rfl
      · exact h

/-- A step of the thread, or of another that responds, when no call wakes up
beside its active prompt. -/
theorem OneThread.step (h : OneThread t s) {a : Action θ} (ha : ByThread t a)
    (hremoved : RemovedBeforeWake s a) (hstep : step s a = some s') : OneThread t s' := by
  have hinv : Inv s' := inv_step h.inv (h.uncontended ha hstep) hstep
  cases stepped hstep with
  | startPrompt t₀ message textInput imageUrl hidle =>
      obtain rfl : t₀ = t := ha
      exact h.startPrompt hidle message textInput imageUrl hinv
  | waitForPrompt t₀ id =>
      obtain rfl : t₀ = t := ha
      exact h.waitForPrompt id hinv
  | timeout t₀ id =>
      obtain rfl : t₀ = t := ha
      exact h.timeout id hinv
  | wake t₀ id =>
      obtain rfl : t₀ = t := ha
      exact h.readResponse hremoved id hinv
  | respond id response => exact h.respond id response hinv
  | removePrompt =>
      exact ⟨hinv, h.others, fun _ ↦ rfl, (h.noneLeft.record (e := .removed) nofun nofun).congr rfl⟩

/-! ## What cannot be undone -/

theorem history_readResponse (s : State θ) (t : θ) (id : ℕ) :
    ∃ e, Ends e ∧ (s.readResponse t id).history = s.history ++ [e] := by
  unfold State.readResponse
  cases s.response with
  | none => exact ⟨.unanswered t id, trivial, rfl⟩
  | some response => exact ⟨.returned t id response, trivial, rfl⟩

theorem history_step {a : Action θ} (hstep : UserInput.step s a = some s') :
    ∃ es, s'.history = s.history ++ es := by
  cases stepped hstep with
  | startPrompt t message textInput imageUrl =>
      unfold State.startPrompt
      cases s.prompt with
      | none => exact ⟨_, rfl⟩
      | some p => exact ⟨_, rfl⟩
  | waitForPrompt t id =>
      unfold State.waitForPrompt
      split
      · exact ⟨[], (List.append_nil _).symm⟩
      · obtain ⟨e, -, he⟩ := history_readResponse s t id
        exact ⟨[e], he⟩
  | timeout t id => exact ⟨_, rfl⟩
  | wake t id =>
      obtain ⟨e, -, he⟩ := history_readResponse s t id
      exact ⟨[e], he⟩
  | respond id response =>
      unfold State.respond
      cases s.prompt with
      | none => exact ⟨[], (List.append_nil _).symm⟩
      | some p =>
          simp only
          split
          · exact ⟨_, rfl⟩
          · exact ⟨[], (List.append_nil _).symm⟩
  | removePrompt => exact ⟨_, rfl⟩

theorem NoPromptLeft.of_step {a : Action θ} (hstep : UserInput.step s a = some s')
    (h : NoPromptLeft s') : NoPromptLeft s := by
  obtain ⟨es, hes⟩ := history_step hstep
  refine ⟨fun t' hmem ↦ h.neverMultiple t' ?_, ?_⟩
  · rw [hes]
    exact List.mem_append_left es hmem
  · exact (hes ▸ h.ended).of_append

/-- A call that wakes up beside its active prompt leaves the prompt behind. -/
theorem OneThread.removedBeforeWake (h : OneThread t s) {a : Action θ}
    (hstep : UserInput.step s a = some s') (hleft : NoPromptLeft s') : RemovedBeforeWake s a := by
  cases stepped hstep with
  | wake t id =>
      obtain ⟨e, hends, he⟩ := history_readResponse s t id
      have hnone : activeIds s.history = [] := (he ▸ hleft.ended).last hends
      rw [h.inv.active] at hnone
      cases hprompt : s.prompt with
      | none => exact hprompt
      | some p => simp [hprompt] at hnone
  | startPrompt | waitForPrompt | timeout | respond | removePrompt => trivial

end Steps

/-! ## The result -/

omit [DecidableEq θ] in
theorem oneThread_initial (t : θ) : OneThread t ({} : State θ) :=
  ⟨inv_initial, fun _ _ ↦ rfl, fun _ ↦ rfl, ⟨nofun, .nil⟩⟩

/-- Two prompts: the first is answered after its timeout, before the call wakes
up, the second while it is waited for. -/
def answeredLate : List (Action Unit) :=
  [.startPrompt () "Serial?" true none, .waitForPrompt (), .timeout (), .respond 0 "A1", .wake (),
    .startPrompt () "Fixture?" true none, .waitForPrompt (), .respond 1 "B2", .wake ()]

/-- A prompt that nobody answers, asked again. -/
def askedAgain : List (Action Unit) :=
  [.startPrompt () "Serial?" true none, .waitForPrompt (), .timeout (), .wake (),
    .startPrompt () "Serial?" true none]

end OpenHtf.UserInput
