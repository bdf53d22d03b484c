import OpenHtf.PubSub

/-!
# The last message of a subscriber

A new subscriber gets the message that is remembered, and later ones as they are
published.  The lock guards the set of subscribers, but neither the remembered message
nor the sending of it to a new one.
-/

set_option autoImplicit false

namespace OpenHtf.PubSub

variable {P C M : Type} [DecidableEq P] [DecidableEq C]

/-- The client is between `on_open` and the end of `on_subscribe`. -/
def Client.Subscribing (pc : Client M) : Prop := pc = .added ∨ pc = .looked ∨ ∃ m, pc = .replying m

/-- The last message that the client got. -/
def State.lastGot (s : State P C M) (c : C) : Option M := (s.sent c).getLast?.map Sending.message

/-- A publication begins before the message of another one is remembered, or while the
client subscribes; the client subscribes before a published message is remembered; or it
is not sent the last message. -/
inductive Crosses (c : C) (s : State P C M) : Action P C M → Prop where
  | publications {p q : P} {m m' : M} (h : s.publisher q = .remembering m') : Crosses c s (.publish p m)
  | subscription {p : P} {m : M} (h : (s.client c).Subscribing) : Crosses c s (.publish p m)
  | memory {q : P} {m : M} (h : s.publisher q = .remembering m) : Crosses c s (.add c)
  | skipped : Crosses c s (.look c false)

/-- The client has the last message, as far as it has been sent. -/
structure Current (c : C) (s : State P C M) : Prop where
  alone : ∀ p q, s.publisher p ≠ .idle → s.publisher q ≠ .idle → p = q
  quiet : (s.client c).Subscribing → ∀ q, s.publisher q = .idle
  sent : s.client c = .new ∨ (s.client c).Subscribing → s.sent c = []
  replying : ∀ m, s.client c = .replying m → s.last = some m
  current : s.client c = .subscribed → (∀ q, s.publisher q = .idle) → s.lastGot c = s.last
  sending : ∀ p m todo, s.publisher p = .sending m todo → s.client c = .subscribed → c ∉ todo → s.lastGot c = some m
  remembering : ∀ p m, s.publisher p = .remembering m → s.client c = .subscribed → s.lastGot c = some m

section Replies

variable {s s' : State P C M} {p : P} {c c' : C} {m : M} {todo : Finset C}

omit [DecidableEq P] [DecidableEq C] in
theorem current_init (c : C) : Current c ({} : State P C M) where
  alone p q h := absurd rfl h
  quiet _ _ := rfl
  sent _ := rfl
  replying m h := by cases h
  current h := by cases h
  sending p m todo h := by cases h
  remembering p m h := by cases h

omit [DecidableEq P] [DecidableEq C] in
theorem Current.idle_of_ne (hcur : Current c s) {q : P} (hp : s.publisher p ≠ .idle) (hne : q ≠ p) :
    s.publisher q = .idle := by
  by_contra hq
  exact hne (hcur.alone q p hq hp)

omit [DecidableEq P] [DecidableEq C] in
theorem Current.not_subscribing (hcur : Current c s) (hp : s.publisher p ≠ .idle) : ¬(s.client c).Subscribing :=
  fun h ↦ hp (hcur.quiet h p)

theorem Current.publish (hcur : Current c s) (hinv : Inv s) (hidle : ∀ q, s.publisher q = .idle)
    (hc : ¬(s.client c).Subscribing) : Current c (s.publish p m) := by
  have hbusy {q : P} {pc : Publisher C M} (hq : (s.publish p m).publisher q = pc) (hpc : pc ≠ .idle) :
      q = p ∧ .sending m s.subscribers = pc := by
    obtain h | ⟨-, hq⟩ := update_cases hq
    · exact h
    · exact absurd (hq.symm.trans (hidle q)) hpc
  constructor
  · exact fun q q' hq hq' ↦ (hbusy rfl hq).1.trans (hbusy rfl hq').1.symm
  · exact fun h ↦ absurd h hc
  · exact hcur.sent
  · exact fun m' h ↦ absurd (.inr (.inr ⟨m', h⟩)) hc
  · intro _ hall
    cases (publisher_publish s p m).symm.trans (hall p)
  · intro q m' todo hq hsub hnot
    obtain ⟨-, heq⟩ := hbusy hq (by simp)
    obtain ⟨-, rfl⟩ := Publisher.sending.inj heq
    have hsub' : s.client c = .subscribed := hsub
    exact absurd ((hinv.mem_iff c).mpr (by simp [hsub', Client.IsOpen])) hnot
  · intro q m' hq
    cases (hbusy hq (by simp)).2

omit [DecidableEq C] in
/-- The publisher goes on to another step of the same publication. -/
theorem Current.alone_update (hcur : Current c s) (hp : s.publisher p ≠ .idle) {pc : Publisher C M} {q q' : P}
    (hq : Function.update s.publisher p pc q ≠ .idle) (hq' : Function.update s.publisher p pc q' ≠ .idle) : q = q' := by
  have hbusy {q : P} (hq : Function.update s.publisher p pc q ≠ .idle) : q = p := by
    by_contra hne
    rw [Function.update_of_ne hne] at hq
    exact hq (hcur.idle_of_ne hp hne)
  exact (hbusy hq).trans (hbusy hq').symm

theorem Current.send (hcur : Current c s) (hinv : Inv s) (hpc : s.publisher p = .sending m todo) (hc' : c' ∈ todo) :
    Current c (s.send p c' m todo) := by
  have hbusy : s.publisher p ≠ .idle := by simp [hpc]
  have hnot := hcur.not_subscribing hbusy
  have hopen := (hinv.mem_iff c').mp (hinv.todo_subset p m todo hpc hc')
  constructor
  · exact fun q q' hq hq' ↦ hcur.alone_update hbusy hq hq'
  · exact fun h ↦ absurd h hnot
  · intro h
    obtain hnew | h := h
    · have hne : c ≠ c' := by
        rintro rfl
        exact hopen.1 hnew
      exact (Function.update_of_ne hne ..).trans (hcur.sent (.inl hnew))
    · exact absurd h hnot
  · exact fun m' h ↦ absurd (.inr (.inr ⟨m', h⟩)) hnot
  · intro _ hall
    cases (publisher_send s p c' m todo).symm.trans (hall p)
  · intro q m' todo' hq hsub hmem
    obtain ⟨-, heq⟩ | ⟨hne, hq⟩ := update_cases hq
    · obtain ⟨rfl, rfl⟩ := Publisher.sending.inj heq
      by_cases hcc : c = c'
      · subst hcc
        simp [State.lastGot, State.send, Sending.message]
      · have hold := hcur.sending p m todo hpc hsub fun h ↦ hmem (Finset.mem_erase.mpr ⟨hcc, h⟩)
        simpa [State.lastGot, State.send, hcc] using hold
    · cases (hcur.idle_of_ne hbusy hne).symm.trans hq
  · intro q m' hq
    obtain ⟨-, heq⟩ | ⟨hne, hq⟩ := update_cases hq
    · cases heq
    · cases (hcur.idle_of_ne hbusy hne).symm.trans hq

omit [DecidableEq C] in
theorem Current.release (hcur : Current c s) (hpc : s.publisher p = .sending m ∅) : Current c (s.release p m) := by
  have hbusy : s.publisher p ≠ .idle := by simp [hpc]
  have hnot := hcur.not_subscribing hbusy
  constructor
  · exact fun q q' hq hq' ↦ hcur.alone_update hbusy hq hq'
  · exact fun h ↦ absurd h hnot
  · exact hcur.sent
  · exact fun m' h ↦ absurd (.inr (.inr ⟨m', h⟩)) hnot
  · intro _ hall
    cases (publisher_release s p m).symm.trans (hall p)
  · intro q m' todo' hq
    obtain ⟨-, heq⟩ | ⟨hne, hq⟩ := update_cases hq
    · cases heq
    · cases (hcur.idle_of_ne hbusy hne).symm.trans hq
  · intro q m' hq hsub
    obtain ⟨-, heq⟩ | ⟨hne, hq⟩ := update_cases hq
    · obtain rfl := Publisher.remembering.inj heq
      exact hcur.sending p m ∅ hpc hsub (Finset.notMem_empty c)
    · cases (hcur.idle_of_ne hbusy hne).symm.trans hq

omit [DecidableEq C] in
theorem Current.remember (hcur : Current c s) (hpc : s.publisher p = .remembering m) : Current c (s.remember p m) := by
  have hbusy : s.publisher p ≠ .idle := by simp [hpc]
  have hnot := hcur.not_subscribing hbusy
  have hall (q : P) : (s.remember p m).publisher q = .idle := by
    by_cases hne : q = p
    · rw [hne]
      exact publisher_remember s p m
    · exact (Function.update_of_ne hne ..).trans (hcur.idle_of_ne hbusy hne)
  constructor
  · exact fun q q' hq ↦ absurd (hall q) hq
  · exact fun h ↦ absurd h hnot
  · exact hcur.sent
  · exact fun m' h ↦ absurd (.inr (.inr ⟨m', h⟩)) hnot
  · exact fun hsub _ ↦ hcur.remembering p m hpc hsub
  · exact fun q m' todo' hq ↦ by cases (hall q).symm.trans hq
  · exact fun q m' hq ↦ by cases (hall q).symm.trans hq

omit [DecidableEq P] [DecidableEq C] in
/-- What another client does. -/
theorem Current.of_eq {t : State P C M} (hcur : Current c s) (hpublisher : t.publisher = s.publisher)
    (hlast : t.last = s.last) (hclient : t.client c = s.client c) (hsent : t.sent c = s.sent c) : Current c t := by
  have hgot : t.lastGot c = s.lastGot c := congrArg (fun l ↦ (List.getLast? l).map Sending.message) hsent
  constructor
  · rw [hpublisher]
    exact hcur.alone
  · rw [hpublisher, hclient]
    exact hcur.quiet
  · rw [hclient, hsent]
    exact hcur.sent
  · rw [hclient, hlast]
    exact hcur.replying
  · rw [hclient, hpublisher, hgot, hlast]
    exact hcur.current
  · rw [hclient, hpublisher, hgot]
    exact hcur.sending
  · rw [hclient, hpublisher, hgot]
    exact hcur.remembering

omit [DecidableEq P] [DecidableEq C] in
/-- A step of the client itself, while nothing is published. -/
theorem Current.of_idle {t : State P C M} (hidle : ∀ q, t.publisher q = .idle)
    (hsent : t.client c = .new ∨ (t.client c).Subscribing → t.sent c = [])
    (hreplying : ∀ m, t.client c = .replying m → t.last = some m)
    (hcurrent : t.client c = .subscribed → t.lastGot c = t.last) : Current c t where
  alone q _ h := absurd (hidle q) h
  quiet _ := hidle
  sent := hsent
  replying := hreplying
  current h _ := hcurrent h
  sending q _ _ h := by cases (hidle q).symm.trans h
  remembering q _ h := by cases (hidle q).symm.trans h

omit [DecidableEq P] in
theorem idle_of_unlocked (hinv : Inv s) (hlock : s.lock = none) (h : ∀ q m, s.publisher q ≠ .remembering m) (q : P) :
    s.publisher q = .idle := by
  cases hq : s.publisher q with
  | idle => rfl
  | sending m todo => cases hlock.symm.trans (hinv.owner q m todo hq)
  | remembering m => exact absurd hq (h q m)

theorem current_step {a : Action P C M} (hinv : Inv s) (hcur : Current c s) (hcross : ¬Crosses c s a)
    (hstep : step s a = some s') : Current c s' := by
  cases a with
  | publish p m =>
      obtain ⟨-, hlock, rfl⟩ := step_publish.mp hstep
      apply hcur.publish hinv
      · exact idle_of_unlocked hinv hlock fun q m' hq ↦ hcross (.publications hq)
      · exact fun h ↦ hcross (.subscription h)
  | send p c' =>
      obtain ⟨m, todo, hpc, hc, rfl⟩ := step_send.mp hstep
      exact hcur.send hinv hpc hc
  | release p =>
      obtain ⟨m, hpc, rfl⟩ := step_release.mp hstep
      exact hcur.release hpc
  | remember p =>
      obtain ⟨m, hpc, rfl⟩ := step_remember.mp hstep
      exact hcur.remember hpc
  | add c' =>
      obtain ⟨hnew, hlock, rfl⟩ := step_add.mp hstep
      by_cases hcc : c = c'
      · subst hcc
        have hself : (s.add c).client c = .added := Function.update_self ..
        apply Current.of_idle
        · have hidle := idle_of_unlocked hinv hlock fun q m' hq ↦ hcross (.memory hq)
          exact hidle
        · exact fun _ ↦ hcur.sent (.inl hnew)
        · exact fun m h ↦ by cases hself.symm.trans h
        · exact fun h ↦ by cases hself.symm.trans h
      · exact hcur.of_eq rfl rfl (Function.update_of_ne hcc ..) rfl
  | look c' wanted =>
      obtain ⟨hpc, rfl⟩ := step_look.mp hstep
      by_cases hcc : c = c'
      · subst hcc
        have hsent := hcur.sent (.inr (.inl hpc))
        have hwanted : wanted = true := by
          by_contra hnot
          exact hcross (Bool.eq_false_of_not_eq_true hnot ▸ .skipped)
        set pc : Client M := if s.last.isSome ∧ wanted then .looked else .subscribed with hpc'
        have hself : (s.setClient c pc).client c = pc := Function.update_self ..
        apply Current.of_idle
        · exact hcur.quiet (.inl hpc)
        · exact fun _ ↦ hsent
        · intro m h
          have h := hpc'.symm.trans (hself.symm.trans h)
          split at h <;> cases h
        · intro h
          have h := hpc'.symm.trans (hself.symm.trans h)
          have hlast : s.last = none := by
            cases hlast : s.last with
            | none => rfl
            | some m => simp [hlast, hwanted] at h
          simp [State.lastGot, State.setClient, hsent, hlast]
      · exact hcur.of_eq rfl rfl (Function.update_of_ne hcc ..) rfl
  | read c' =>
      obtain ⟨hpc, m, hlast, rfl⟩ := step_read.mp hstep
      by_cases hcc : c = c'
      · subst hcc
        have hself : (s.setClient c (.replying m)).client c = .replying m := Function.update_self ..
        apply Current.of_idle
        · exact hcur.quiet (.inr (.inl hpc))
        · exact fun _ ↦ hcur.sent (.inr (.inr (.inl hpc)))
        · intro m' h
          obtain rfl := Client.replying.inj (hself.symm.trans h)
          exact hlast
        · exact fun h ↦ by cases hself.symm.trans h
      · exact hcur.of_eq rfl rfl (Function.update_of_ne hcc ..) rfl
  | reply c' =>
      obtain ⟨m, hpc, rfl⟩ := step_reply.mp hstep
      by_cases hcc : c = c'
      · subst hcc
        have hself : (s.reply c m).client c = .subscribed := Function.update_self ..
        apply Current.of_idle
        · exact hcur.quiet (.inr (.inr ⟨m, hpc⟩))
        · simp [hself, Client.Subscribing]
        · exact fun m' h ↦ by cases hself.symm.trans h
        · intro _
          simpa [State.lastGot, State.reply, Sending.message] using (hcur.replying m hpc).symm
      · exact hcur.of_eq rfl rfl (Function.update_of_ne hcc ..) (Function.update_of_ne hcc ..)
  | remove c' =>
      obtain ⟨hpc, hlock, rfl⟩ := step_remove.mp hstep
      by_cases hcc : c = c'
      · subst hcc
        have hself : (s.remove c).client c = .closed := Function.update_self ..
        constructor
        · exact hcur.alone
        · simp [hself, Client.Subscribing]
        · simp [hself, Client.Subscribing]
        · simp [hself]
        · simp [hself]
        · simp [hself]
        · simp [hself]
      · exact hcur.of_eq rfl rfl (Function.update_of_ne hcc ..) rfl

/-- When nothing is being published, a subscriber has the message that is remembered, or
its subscription has crossed a publication, or one publication another. -/
theorem lastGot_eq_last {as : List (Action P C M)} (hrun : runActions step as {} = some s)
    (hidle : ∀ q, s.publisher q = .idle) (hc : s.client c = .subscribed) :
    s.lastGot c = s.last ∨
      ∃ pre a post t, as = pre ++ a :: post ∧ runActions step pre {} = some t ∧ Crosses c t a := by
  by_cases hmeets : RunMeets step (fun s a ↦ ¬Crosses c s a) as {}
  · have hend := run_invariant (I := fun s ↦ Inv s ∧ Current c s)
      (fun _ _ _ h hcross hstep ↦ ⟨inv_step h.1 hstep, current_step h.1 h.2 hcross hstep⟩)
      ⟨inv_init, current_init c⟩ hmeets hrun
    exact .inl (hend.2.current hc hidle)
  · obtain ⟨pre, a, post, t, rfl, hpre, hcross⟩ := exists_of_not_runMeets hmeets
    exact .inr ⟨pre, a, post, t, rfl, hpre, not_not.mp hcross⟩

/-- A client subscribes when 1 has been published, but is not remembered yet. -/
theorem lastGot_missed :
    let as : List (Action Unit Unit ℕ) := [.publish () 0, .release (), .remember (), .publish () 1, .release (), .add (),
      .look () true, .read (), .reply (), .remember ()]
    ∃ s, runActions step as {} = some s ∧ s.lastGot () = some 0 ∧ s.last = some 1 ∧
      (s.lastGot () = s.last ∨
        ∃ pre a post t, as = pre ++ a :: post ∧ runActions step pre {} = some t ∧ Crosses () t a) := by
  intro as
  have hrun : runActions step as ({} : State Unit Unit ℕ) = some _ := rfl
  exact ⟨_, hrun, rfl, rfl, lastGot_eq_last hrun (fun _ ↦ rfl) rfl⟩

end Replies

end OpenHtf.PubSub
