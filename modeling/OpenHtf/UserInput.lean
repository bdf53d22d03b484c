import Mathlib.Logic.Function.Basic
import OpenHtf.Lib.Interleaving

/-!
# Prompts and their responses

`plugs.user_input.UserInput` with any number of threads that call `prompt`,
`respond` and `remove_prompt`.  What a thread does while it holds the condition
is one step; a call of `prompt` is a step of `start_prompt`, one of
`wait_for_prompt`, and when that waits, a wake-up and a step that reads the
response.
-/

set_option autoImplicit false

namespace OpenHtf.UserInput

/-- Prompts are numbered in the order of their making, as no two have the same
`uuid4`. -/
structure Prompt where
  id : ℕ
  message : String
  textInput : Bool := false
  imageUrl : Option String := none
  deriving DecidableEq

/-- Where a thread is in a call of `prompt`: before `wait_for_prompt`, waiting
for the condition, or about to take its lock again. -/
inductive Pc where
  | idle
  | started (id : ℕ)
  | waiting (id : ℕ)
  | woken (id : ℕ)
  deriving DecidableEq

/-- What has happened; a call of `respond` without effect leaves no trace. -/
inductive Event (θ : Type) where
  | started (t : θ) (id : ℕ)
  | multiplePrompts (t : θ)
  | responded (id : ℕ) (response : String)
  | removed
  | timedOut (t : θ) (id : ℕ)
  | returned (t : θ) (id : ℕ) (response : String)
  | unanswered (t : θ) (id : ℕ)
  deriving DecidableEq

/-- The plug, its threads and the history of both. -/
structure State (θ : Type) where
  prompt : Option Prompt := none
  response : Option String := none
  lastResponse : Option (ℕ × String) := none
  prompts : ℕ := 0
  pc : θ → Pc := fun _ ↦ .idle
  history : List (Event θ) := []

inductive Action (θ : Type) where
  | startPrompt (t : θ) (message : String) (textInput : Bool) (imageUrl : Option String)
  | waitForPrompt (t : θ)
  | timeout (t : θ)
  | wake (t : θ)
  | respond (id : ℕ) (response : String)
  | removePrompt

variable {θ : Type}

namespace State

def record (e : Event θ) (s : State θ) : State θ := { s with history := s.history ++ [e] }

/-- `remove_prompt`, which wakes nobody. -/
def removePrompt (s : State θ) : State θ := record .removed { s with prompt := none }

/-- `Condition.notify_all`. -/
def notifyAll (s : State θ) : State θ :=
  { s with pc := fun t ↦ match s.pc t with
      | .waiting id => .woken id
      | pc => pc }

/-- `respond`; its call of `remove_prompt` is no event of its own. -/
def respond (id : ℕ) (response : String) (s : State θ) : State θ :=
  match s.prompt with
  | none => s
  | some p =>
    if p.id = id then
      notifyAll (record (.responded id response)
        { s with response := some response, lastResponse := some (id, response), prompt := none })
    else s

variable [DecidableEq θ]

def setPc (t : θ) (pc : Pc) (s : State θ) : State θ := { s with pc := Function.update s.pc t pc }

/-- `start_prompt`. -/
def startPrompt (t : θ) (message : String) (textInput : Bool) (imageUrl : Option String)
    (s : State θ) : State θ :=
  match s.prompt with
  | some _ => record (.multiplePrompts t) s
  | none =>
    setPc t (.started s.prompts) (record (.started t s.prompts)
      { s with
        response := none
        prompt := some ⟨s.prompts, message, textInput, imageUrl⟩
        prompts := s.prompts + 1 })

/-- The end of `wait_for_prompt`. -/
def readResponse (t : θ) (id : ℕ) (s : State θ) : State θ :=
  match s.response with
  | none => setPc t .idle (record (.unanswered t id) s)
  | some response => setPc t .idle (record (.returned t id response) s)

/-- `wait_for_prompt` up to the wait. -/
def waitForPrompt (t : θ) (id : ℕ) (s : State θ) : State θ :=
  if s.prompt.isSome then setPc t (.waiting id) s else readResponse t id s

end State

variable [DecidableEq θ]

def step (s : State θ) : Action θ → Option (State θ)
  | .startPrompt t message textInput imageUrl =>
      if s.pc t = .idle then some (s.startPrompt t message textInput imageUrl) else none
  | .waitForPrompt t =>
      match s.pc t with
      | .started id => some (s.waitForPrompt t id)
      | _ => none
  | .timeout t =>
      match s.pc t with
      | .waiting id => some ((s.record (.timedOut t id)).setPc t (.woken id))
      | _ => none
  | .wake t =>
      match s.pc t with
      | .woken id => some (s.readResponse t id)
      | _ => none
  | .respond id response => some (s.respond id response)
  | .removePrompt => some s.removePrompt

/-- The next step of a thread inside `prompt`, if it is not waiting. -/
def proceed (t : θ) (s : State θ) : Option (State θ) :=
  match s.pc t with
  | .started _ => step s (.waitForPrompt t)
  | .woken _ => step s (.wake t)
  | _ => none

/-! ## Active prompts -/

/-- The prompts that are active after a history. -/
def activeIds : List (Event θ) → List ℕ :=
  List.foldl (fun ids e ↦ match e with
    | .started _ id => ids ++ [id]
    | .responded id _ => ids.filter (· ≠ id)
    | .removed => []
    | _ => ids) []

/-- The thread is inside the call of `prompt` that started the prompt. -/
def InCall (s : State θ) (t : θ) (id : ℕ) : Prop :=
  s.pc t = .started id ∨ s.pc t = .waiting id ∨ s.pc t = .woken id

/-- The prompt was answered, and before its timeout. -/
def AnsweredInTime (h : List (Event θ)) (id : ℕ) (response : String) : Prop :=
  ∃ pre post, h = pre ++ .responded id response :: post ∧ ∀ t, .timedOut t id ∉ pre

structure PromptsAnswered (s : State θ) : Prop where
  oneActive : (activeIds s.history).length ≤ 1
  noEffect : ∀ id response, id ∉ activeIds s.history → s.respond id response = s
  effectOnce : Each (fun pre e ↦ ∀ id response, e = .responded id response →
    id ∈ activeIds pre ∧ ∀ response', .responded id response' ∉ pre) s.history
  ownResponse : Each (fun pre e ↦ ∀ t id response, e = .returned t id response →
    .responded id response ∈ pre) s.history
  answered : Each (fun pre e ↦ ∀ t id response, AnsweredInTime pre id response →
    e ≠ .unanswered t id ∧ ∀ response', e = .returned t id response' → response' = response) s.history
  proceeds : ∀ t id response, AnsweredInTime s.history id response → InCall s t id →
    proceed t s = some ((s.record (.returned t id response)).setPc t .idle)

/-- A prompt is started only while no other call of `prompt` is in progress. -/
def Uncontended (s : State θ) : Action θ → Prop
  | .startPrompt .. => s.prompt = none → ∀ t, s.pc t = .idle
  | _ => True

/-! ## The invariant -/

structure Inv (s : State θ) : Prop where
  active : activeIds s.history = s.prompt.toList.map (·.id)
  promptNew : ∀ p, s.prompt = some p → p.id < s.prompts
  respondedOld : ∀ id response, .responded id response ∈ s.history →
    id < s.prompts ∧ ∀ p, s.prompt = some p → p.id ≠ id
  effectOnce : Each (fun pre e ↦ ∀ id response, e = .responded id response →
    id ∈ activeIds pre ∧ ∀ response', .responded id response' ∉ pre) s.history
  /-- A call of `prompt` sees its own prompt and its own response. -/
  own : ∀ t id, InCall s t id → (∀ p, s.prompt = some p → p.id = id) ∧
    ∀ response, s.response = some response ↔ .responded id response ∈ s.history
  waiting : ∀ t id response, s.pc t = .waiting id → .responded id response ∉ s.history
  ownResponse : Each (fun pre e ↦ ∀ t id response, e = .returned t id response →
    .responded id response ∈ pre) s.history
  answered : Each (fun pre e ↦ ∀ t id response, .responded id response ∈ pre →
    e ≠ .unanswered t id ∧ ∀ response', e = .returned t id response' → response' = response) s.history

section History

omit [DecidableEq θ]

theorem inv_initial : Inv ({} : State θ) where
  active := rfl
  promptNew := nofun
  respondedOld := nofun
  effectOnce := .nil
  own t id h := by rcases h with h | h | h <;> cases h
  waiting := nofun
  ownResponse := .nil
  answered := .nil

theorem AnsweredInTime.mem {h : List (Event θ)} {id : ℕ} {response : String}
    (hh : AnsweredInTime h id response) : .responded id response ∈ h := by
  obtain ⟨pre, post, rfl, -⟩ := hh
  simp

theorem activeIds_concat (h : List (Event θ)) (e : Event θ) :
    activeIds (h ++ [e]) = match e with
      | .started _ id => activeIds h ++ [id]
      | .responded id _ => (activeIds h).filter (· ≠ id)
      | .removed => []
      | _ => activeIds h := by
  simp only [activeIds, List.foldl_append, List.foldl_cons, List.foldl_nil]

theorem mem_activeIds {s : State θ} (h : Inv s) {id : ℕ} :
    id ∈ activeIds s.history ↔ ∃ p, s.prompt = some p ∧ p.id = id := by
  rw [h.active]
  cases s.prompt <;> simp [eq_comm]

/-- An event that is neither the start nor the end of an active prompt. -/
theorem Inv.extend {s s' : State θ} (h : Inv s) {e : Event θ} (hhistory : s'.history = s.history ++ [e])
    (hprompt : s'.prompt = s.prompt) (hresponse : s'.response = s.response)
    (hprompts : s'.prompts = s.prompts) (hcall : ∀ t id, InCall s' t id → InCall s t id)
    (hwaiting : ∀ t id, s'.pc t = .waiting id → s.pc t = .waiting id)
    (hactive : activeIds (s.history ++ [e]) = activeIds s.history)
    (hnot : ∀ id response, e ≠ .responded id response)
    (hown : ∀ t id response, e = .returned t id response → .responded id response ∈ s.history)
    (hanswered : ∀ t id response, .responded id response ∈ s.history →
      e ≠ .unanswered t id ∧ ∀ response', e = .returned t id response' → response' = response) :
    Inv s' := by
  have hmem : ∀ id response, .responded id response ∈ s'.history ↔ .responded id response ∈ s.history := by
    intro id response
    rw [hhistory, List.mem_append, List.mem_singleton]
    exact or_iff_left (hnot id response).symm
  refine ⟨?_, ?_, ?_, ?_, ?_, ?_, ?_, ?_⟩
  · rw [hhistory, hactive, hprompt]
    exact h.active
  · rw [hprompt, hprompts]
    exact h.promptNew
  · intro id response hr
    rw [hprompt, hprompts]
    exact h.respondedOld id response ((hmem id response).mp hr)
  · rw [hhistory]
    exact h.effectOnce.concat fun id response he ↦ absurd he (hnot id response)
  · intro t id ht
    obtain ⟨hp, hr⟩ := h.own t id (hcall t id ht)
    rw [hprompt, hresponse]
    exact ⟨hp, fun response ↦ (hr response).trans (hmem id response).symm⟩
  · intro t id response ht hr
    exact h.waiting t id response (hwaiting t id ht) ((hmem id response).mp hr)
  · rw [hhistory]
    exact h.ownResponse.concat hown
  · rw [hhistory]
    exact h.answered.concat hanswered

theorem inv_removePrompt {s : State θ} (h : Inv s) : Inv s.removePrompt := by
  have hmem : ∀ id response, .responded id response ∈ s.removePrompt.history ↔
      .responded id response ∈ s.history := by
    intro id response
    simp [State.removePrompt, State.record]
  refine ⟨by simp [State.removePrompt, State.record, activeIds_concat], nofun, ?_, ?_, ?_, ?_, ?_, ?_⟩
  · intro id response hr
    exact ⟨(h.respondedOld id response ((hmem id response).mp hr)).1, nofun⟩
  · exact h.effectOnce.concat nofun
  · intro t id ht
    exact ⟨nofun, fun response ↦ ((h.own t id ht).2 response).trans (hmem id response).symm⟩
  · intro t id response ht hr
    exact h.waiting t id response ht ((hmem id response).mp hr)
  · exact h.ownResponse.concat nofun
  · exact h.answered.concat fun _ _ _ _ ↦ ⟨nofun, nofun⟩

theorem inCall_notifyAll {s : State θ} {t : θ} {id : ℕ} :
    InCall s.notifyAll t id ↔ InCall s t id := by
  simp only [InCall, State.notifyAll]
  cases s.pc t <;> simp

theorem notifyAll_not_waiting (s : State θ) (t : θ) (id : ℕ) : s.notifyAll.pc t ≠ .waiting id := by
  simp only [State.notifyAll]
  cases s.pc t <;> simp

theorem inv_respond {s : State θ} (h : Inv s) (id : ℕ) (response : String) :
    Inv (s.respond id response) := by
  unfold State.respond
  cases hp : s.prompt with
  | none => exact h
  | some p =>
      simp only
      split
      · rename_i hid
        have hfresh : ∀ response', .responded id response' ∉ s.history := fun response' hr ↦
          (h.respondedOld id response' hr).2 p hp hid
        have hactive : activeIds s.history = [id] := by
          rw [h.active, hp]
          simp [hid]
        refine ⟨?_, nofun, ?_, ?_, ?_, ?_, ?_, ?_⟩
        · simp [State.notifyAll, State.record, activeIds_concat, hactive]
        · intro id' response' hr
          refine ⟨?_, nofun⟩
          rcases List.mem_append.mp hr with hr | hr
          · exact (h.respondedOld id' response' hr).1
          · obtain ⟨rfl, rfl⟩ : id' = id ∧ response' = response := by simpa using hr
            exact hid ▸ h.promptNew p hp
        · refine h.effectOnce.concat fun id' response' he ↦ ?_
          obtain ⟨rfl, rfl⟩ : id = id' ∧ response = response' := by simpa using he
          exact ⟨by simp [hactive], hfresh⟩
        · intro t id' ht
          have hown := h.own t id' (inCall_notifyAll.mp ht)
          obtain rfl : id = id' := hid.symm.trans (hown.1 p hp)
          refine ⟨nofun, fun response' ↦ ?_⟩
          simp [State.notifyAll, State.record, hfresh, eq_comm]
        · intro t id' response' ht
          exact absurd ht (notifyAll_not_waiting _ t id')
        · exact h.ownResponse.concat nofun
        · exact h.answered.concat fun _ _ _ _ ↦ ⟨nofun, nofun⟩
      · exact h

end History

section Steps

variable {s : State θ} {t : θ}

theorem inCall_setPc {pc : Pc} {t' : θ} {id : ℕ} (h : InCall (s.setPc t pc) t' id) :
    (t' = t ∧ (pc = .started id ∨ pc = .waiting id ∨ pc = .woken id)) ∨ (t' ≠ t ∧ InCall s t' id) := by
  by_cases ht : t' = t
  · subst ht
    exact .inl ⟨rfl, by simpa [InCall, State.setPc] using h⟩
  · exact .inr ⟨ht, by simpa [InCall, State.setPc, ht] using h⟩

theorem waiting_setPc {pc : Pc} {t' : θ} {id : ℕ} (h : (s.setPc t pc).pc t' = .waiting id)
    (hpc : ∀ id, pc ≠ .waiting id) : s.pc t' = .waiting id := by
  by_cases ht : t' = t
  · subst ht
    exact absurd (by simpa [State.setPc] using h) (hpc id)
  · simpa [State.setPc, ht] using h

/-- A new prompt, when no call of `prompt` is in progress. -/
theorem inv_startPrompt (h : Inv s) (hidle : s.prompt = none → ∀ t', s.pc t' = .idle)
    (message : String) (textInput : Bool) (imageUrl : Option String) :
    Inv (s.startPrompt t message textInput imageUrl) := by
  unfold State.startPrompt
  cases hp : s.prompt with
  | some p =>
      exact h.extend rfl rfl rfl rfl (fun _ _ ht ↦ ht) (fun _ _ ht ↦ ht) (by simp [activeIds_concat])
        nofun nofun fun _ _ _ _ ↦ ⟨nofun, nofun⟩
  | none =>
      have hactive : activeIds s.history = [] := by simp [h.active, hp]
      have hfresh : ∀ response, .responded s.prompts response ∉ s.history := fun response hr ↦
        Nat.lt_irrefl _ (h.respondedOld _ response hr).1
      simp only
      refine ⟨?_, ?_, ?_, ?_, ?_, ?_, ?_, ?_⟩
      · simp [State.setPc, State.record, activeIds_concat, hactive]
      · rintro p ⟨⟩
        exact Nat.lt_succ_self _
      · intro id response hr
        have hold := (h.respondedOld id response (by simpa [State.setPc, State.record] using hr)).1
        refine ⟨Nat.lt_succ_of_lt hold, ?_⟩
        rintro p ⟨⟩
        exact Nat.ne_of_gt hold
      · exact h.effectOnce.concat nofun
      · intro t' id ht
        rcases inCall_setPc ht with ⟨rfl, hpc⟩ | ⟨-, hpc⟩
        · obtain rfl : s.prompts = id := by simpa using hpc
          refine ⟨?_, fun response ↦ ?_⟩
          · rintro p ⟨⟩
            rfl
          · simp [State.setPc, State.record, hfresh]
        · rcases hpc with hpc | hpc | hpc <;> simp [State.record, hidle hp t'] at hpc
      · intro t' id response ht
        have hpc := waiting_setPc ht nofun
        simp [State.record, hidle hp t'] at hpc
      · exact h.ownResponse.concat nofun
      · exact h.answered.concat fun _ _ _ _ ↦ ⟨nofun, nofun⟩

theorem inv_readResponse (h : Inv s) {id : ℕ} (ht : InCall s t id) : Inv (s.readResponse t id) := by
  have hresponse := (h.own t id ht).2
  have hcall : ∀ (e : Event θ) t' id', InCall ((s.record e).setPc t .idle) t' id' → InCall s t' id' := by
    intro e t' id' ht'
    rcases inCall_setPc ht' with ⟨-, hpc⟩ | ⟨-, hpc⟩
    · rcases hpc with hpc | hpc | hpc <;> cases hpc
    · exact hpc
  unfold State.readResponse
  cases hr : s.response with
  | none =>
      refine h.extend (e := .unanswered t id) rfl rfl rfl rfl (hcall _)
        (fun _ _ ht' ↦ waiting_setPc ht' nofun) (by simp [activeIds_concat]) nofun nofun ?_
      intro t' id' response hmem
      refine ⟨?_, nofun⟩
      rintro ⟨⟩
      have := (hresponse response).mpr hmem
      simp [hr] at this
  | some response =>
      refine h.extend (e := .returned t id response) rfl rfl rfl rfl (hcall _)
        (fun _ _ ht' ↦ waiting_setPc ht' nofun) (by simp [activeIds_concat]) nofun ?_ ?_
      · rintro t' id' response' ⟨⟩
        exact (hresponse response).mp hr
      · intro t' id' response' hmem
        refine ⟨nofun, ?_⟩
        rintro response'' ⟨⟩
        exact Option.some.inj (hr.symm.trans ((hresponse response').mpr hmem))

theorem inv_waitForPrompt (h : Inv s) {id : ℕ} (ht : s.pc t = .started id) :
    Inv (s.waitForPrompt t id) := by
  unfold State.waitForPrompt
  split
  · rename_i hp
    obtain ⟨p, hp⟩ := Option.isSome_iff_exists.mp hp
    have hcall : ∀ t' id', InCall (s.setPc t (.waiting id)) t' id' → InCall s t' id' := by
      intro t' id' ht'
      rcases inCall_setPc ht' with ⟨rfl, hpc⟩ | ⟨-, hpc⟩
      · obtain rfl : id = id' := by simpa using hpc
        exact .inl ht
      · exact hpc
    refine { h with own := fun t' id' ht' ↦ h.own t' id' (hcall t' id' ht'), waiting := ?_ }
    intro t' id' response hpc hr
    -- The prompt that is active is the one of the call.
    have hid := (h.own t' id' (hcall t' id' (.inr (.inl hpc)))).1 p hp
    exact (h.respondedOld id' response hr).2 p hp hid
  · exact inv_readResponse h (.inl ht)

theorem inv_timeout (h : Inv s) {id : ℕ} (ht : s.pc t = .waiting id) :
    Inv ((s.record (.timedOut t id)).setPc t (.woken id)) := by
  refine h.extend rfl rfl rfl rfl ?_ (fun _ _ ht' ↦ waiting_setPc ht' nofun)
    (by simp [activeIds_concat]) nofun nofun fun _ _ _ _ ↦ ⟨nofun, nofun⟩
  intro t' id' ht'
  rcases inCall_setPc ht' with ⟨rfl, hpc⟩ | ⟨-, hpc⟩
  · obtain rfl : id = id' := by simpa using hpc
    exact .inr (.inl ht)
  · exact hpc

/-- What each action does, and when it can be taken. -/
inductive Stepped (s : State θ) : Action θ → State θ → Prop
  | startPrompt (t : θ) (message : String) (textInput : Bool) (imageUrl : Option String)
      (hpc : s.pc t = .idle) :
      Stepped s (.startPrompt t message textInput imageUrl) (s.startPrompt t message textInput imageUrl)
  | waitForPrompt (t : θ) (id : ℕ) (hpc : s.pc t = .started id) :
      Stepped s (.waitForPrompt t) (s.waitForPrompt t id)
  | timeout (t : θ) (id : ℕ) (hpc : s.pc t = .waiting id) :
      Stepped s (.timeout t) ((s.record (.timedOut t id)).setPc t (.woken id))
  | wake (t : θ) (id : ℕ) (hpc : s.pc t = .woken id) : Stepped s (.wake t) (s.readResponse t id)
  | respond (id : ℕ) (response : String) : Stepped s (.respond id response) (s.respond id response)
  | removePrompt : Stepped s .removePrompt s.removePrompt

theorem stepped {a : Action θ} {s' : State θ} (hstep : step s a = some s') : Stepped s a s' := by
  cases a with
  | startPrompt t message textInput imageUrl =>
      simp only [step] at hstep
      split at hstep
      · obtain rfl := Option.some.inj hstep
        exact .startPrompt t message textInput imageUrl ‹_›
      · cases hstep
  | waitForPrompt t =>
      simp only [step] at hstep
      split at hstep
      · obtain rfl := Option.some.inj hstep
        exact .waitForPrompt t _ ‹_›
      · cases hstep
  | timeout t =>
      simp only [step] at hstep
      split at hstep
      · obtain rfl := Option.some.inj hstep
        exact .timeout t _ ‹_›
      · cases hstep
  | wake t =>
      simp only [step] at hstep
      split at hstep
      · obtain rfl := Option.some.inj hstep
        exact .wake t _ ‹_›
      · cases hstep
  | respond id response =>
      obtain rfl := Option.some.inj hstep
      exact .respond id response
  | removePrompt =>
      obtain rfl := Option.some.inj hstep
      exact .removePrompt

theorem inv_step {a : Action θ} {s' : State θ} (h : Inv s) (ha : Uncontended s a)
    (hstep : step s a = some s') : Inv s' := by
  cases stepped hstep with
  | startPrompt t message textInput imageUrl => exact inv_startPrompt h ha message textInput imageUrl
  | waitForPrompt t id hpc => exact inv_waitForPrompt h hpc
  | timeout t id hpc => exact inv_timeout h hpc
  | wake t id hpc => exact inv_readResponse h (.inr (.inr hpc))
  | respond id response => exact inv_respond h id response
  | removePrompt => exact inv_removePrompt h

end Steps

/-! ## The result -/

theorem Inv.proceeds {s : State θ} (h : Inv s) {t : θ} {id : ℕ} {response : String}
    (hr : .responded id response ∈ s.history) (ht : InCall s t id) :
    proceed t s = some ((s.record (.returned t id response)).setPc t .idle) := by
  obtain ⟨hprompt, hresponse⟩ := h.own t id ht
  have hnone : s.prompt = none := by
    cases hp : s.prompt with
    | none => rfl
    | some p => exact absurd (hprompt p hp) ((h.respondedOld id response hr).2 p hp)
  have hread : s.readResponse t id = (s.record (.returned t id response)).setPc t .idle := by
    simp [State.readResponse, (hresponse response).mpr hr]
  rcases ht with ht | ht | ht
  · simp [proceed, step, ht, State.waitForPrompt, hnone, hread]
  · exact absurd hr (h.waiting t id response ht)
  · simp [proceed, step, ht, hread]

theorem Inv.promptsAnswered {s : State θ} (h : Inv s) : PromptsAnswered s where
  oneActive := by
    rw [h.active]
    cases s.prompt <;> simp
  noEffect id response hid := by
    unfold State.respond
    cases hp : s.prompt with
    | none => rfl
    | some p => simp [show p.id ≠ id from fun heq ↦ hid ((mem_activeIds h).mpr ⟨p, hp, heq⟩)]
  effectOnce := h.effectOnce
  ownResponse := h.ownResponse
  answered := h.answered.mono fun pre e he t id response hr ↦ he t id response hr.mem
  proceeds t id response hr ht := h.proceeds hr.mem ht

/-- In every run in which prompts are started only while no other call of
`prompt` is in progress, prompts are answered by their own responses. -/
theorem prompts_answered (as : List (Action θ)) (s : State θ)
    (hmeets : RunMeets step Uncontended as ({} : State θ))
    (hrun : runActions step as ({} : State θ) = some s) : PromptsAnswered s :=
  (run_invariant (fun _ _ _ h ha hstep ↦ inv_step h ha hstep) inv_initial hmeets hrun).promptsAnswered

/-! ## The defect -/

/-- A prompt that is answered while it is waited for, and a second one after it. -/
def answeredTwice : List (Action Bool) :=
  [.startPrompt true "Serial?" true none, .waitForPrompt true, .respond 0 "A1", .wake true,
    .startPrompt false "Fixture?" true none, .respond 1 "B2", .waitForPrompt false]

/-- A second prompt is made after the first one is answered and before its
response is read. -/
def overtaken : List (Action Bool) :=
  [.startPrompt true "Serial?" true none, .respond 0 "A1",
    .startPrompt false "Fixture?" true none, .respond 1 "B2", .waitForPrompt true]

theorem prompts_answered_twice :
    ∃ s, runActions step answeredTwice {} = some s ∧ PromptsAnswered s := by
  obtain ⟨s, hs⟩ : ∃ s, runActions step answeredTwice {} = some s := ⟨_, rfl⟩
  refine ⟨s, hs, prompts_answered answeredTwice s ?_ hs⟩
  refine ⟨fun _ _ ↦ rfl, ?_⟩
  rintro s₁ ⟨⟩
  refine ⟨trivial, ?_⟩
  rintro s₂ ⟨⟩
  refine ⟨trivial, ?_⟩
  rintro s₃ ⟨⟩
  refine ⟨trivial, ?_⟩
  rintro s₄ ⟨⟩
  refine ⟨fun _ t ↦ by cases t <;> rfl, ?_⟩
  rintro s₅ ⟨⟩
  exact ⟨trivial, fun _ _ ↦ ⟨trivial, fun _ _ ↦ trivial⟩⟩

theorem not_prompts_answered_overtaken :
    ∃ s, runActions step overtaken {} = some s ∧ ¬PromptsAnswered s := by
  refine ⟨_, rfl, fun h ↦ ?_⟩
  have hown := h.ownResponse [.started true 0, .responded 0 "A1", .started false 1,
    .responded 1 "B2"] (.returned true 0 "B2") [] rfl true 0 "B2" rfl
  revert hown
  decide

end OpenHtf.UserInput
