import OpenHtf.AdbHandshake

/-!
# Which devices `connect` connects to

What `AdbConnection.connect` sends to a device and when it returns, for every device and
every list of keys.
-/

set_option autoImplicit false

namespace OpenHtf.Adb.Handshake

/-- The AUTH and CNXN messages of the device until a read fails. -/
def answers : List Reply → List AdbMessage
  | [] | .readFailed _ :: _ => []
  | .message m :: rest => if m.command = .AUTH ∨ m.command = .CNXN then m :: answers rest else answers rest

/-- What `connect` sends first. -/
def hello : AdbMessage := ⟨.CNXN, ADB_VERSION, MAX_ADB_DATA, hostBanner⟩

/-- The answer of a key to a token. -/
def signature (key : AuthSigner) (token : AdbMessage) : AdbMessage :=
  ⟨.AUTH, AUTH_SIGNATURE, 0, key.sign token.data⟩

def publicKeyMessage (key : AuthSigner) : AdbMessage := ⟨.AUTH, AUTH_RSAPUBLICKEY, 0, key.publicKey ++ [0]⟩

def IsToken (m : AdbMessage) : Prop := m.command = .AUTH ∧ m.arg0 = AUTH_TOKEN

/-- A device that sends `ms` is connected to when `connect` gets the CNXN `m`, and what
`connect` has sent by then: the device likes the last signature, if it wants one, or its
user accepts the first key when none was liked. -/
inductive Connects (keys : List AuthSigner) :
    List AdbMessage → AdbMessage → List AdbMessage → List AdbMessage → Prop where
  | signed {ts : List AdbMessage} {m : AdbMessage} {rest : List AdbMessage} (htokens : ∀ t ∈ ts, IsToken t)
      (hm : m.command = .CNXN) (hlength : ts.length ≤ keys.length) :
      Connects keys (ts ++ m :: rest) m rest (hello :: List.zipWith signature keys ts)
  | accepted {key : AuthSigner} {ts : List AdbMessage} {a : AdbMessage} {auths : List AdbMessage} {m : AdbMessage}
      {rest : List AdbMessage} (hkey : keys.head? = some key) (htokens : ∀ t ∈ ts, IsToken t)
      (hlength : ts.length = keys.length) (ha : a.command = .AUTH) (hauths : ∀ b ∈ auths, b.command = .AUTH)
      (hm : m.command = .CNXN) :
      Connects keys (ts ++ a :: auths ++ m :: rest) m rest
        (hello :: List.zipWith signature keys ts ++ [publicKeyMessage key])

theorem command_of_mem_answers {replies : List Reply} {m : AdbMessage} (h : m ∈ answers replies) :
    m.command = .AUTH ∨ m.command = .CNXN := by
  induction replies with
  | nil => cases h
  | cons reply rest ih =>
      cases reply with
      | readFailed isTimeout => cases h
      | message m' =>
          rw [answers] at h
          split_ifs at h with hm'
          · rcases List.mem_cons.mp h with rfl | h
            · exact hm'
            · exact ih h
          · exact ih h

/-! ## Reads -/

variable {w : Wire} {m : AdbMessage} {sent : List AdbMessage} {ms : List AdbMessage}

/-- The statement returns `a`, with so much sent and these answers not read. -/
def Returns {α : Type} (x : Act Wire ConnectError α) (w : Wire) (a : α) (sent ms : List AdbMessage) : Prop :=
  ∃ w', x w = (.ok a, w') ∧ w'.sent = sent ∧ answers w'.replies = ms

theorem returns_bind_iff {α β : Type} {x : Act Wire ConnectError α} {f : α → Act Wire ConnectError β} {b : β} :
    Returns (x >>= f) w b sent ms ↔ ∃ a w', x w = (.ok a, w') ∧ Returns (f a) w' b sent ms := by
  constructor
  · rintro ⟨w₂, h, hw₂⟩
    obtain ⟨a, w₁, hx, hf⟩ := Act.bind_eq_ok_iff.mp h
    exact ⟨a, w₁, hx, w₂, hf, hw₂⟩
  · rintro ⟨a, w₁, hx, w₂, hf, hw₂⟩
    exact ⟨w₂, Act.bind_eq_ok_iff.mpr ⟨a, w₁, hx, hf⟩, hw₂⟩

/-- The next answer is read, whatever else comes before it. -/
theorem returns_readUntil :
    Returns (readUntil [.AUTH, .CNXN]) w m sent ms ↔ sent = w.sent ∧ answers w.replies = m :: ms := by
  have hfind (replies : List Reply) (rest : List Reply) :
      (findExpected [.AUTH, .CNXN] replies = (.ok m, rest) → answers replies = m :: answers rest) ∧
        (answers replies = m :: ms → ∃ rest, findExpected [.AUTH, .CNXN] replies = (.ok m, rest) ∧ answers rest = ms) := by
    induction replies with
    | nil => simp [findExpected, answers]
    | cons reply replies ih =>
        cases reply with
        | readFailed isTimeout => simp [findExpected, answers]
        | message m' =>
            by_cases hm' : m'.command = .AUTH ∨ m'.command = .CNXN
            · simp only [findExpected, answers, List.mem_cons, List.not_mem_nil, or_false, hm', if_true]
              constructor
              · rintro ⟨⟩
                rfl
              · rintro ⟨⟩
                exact ⟨replies, rfl, rfl⟩
            · simpa [findExpected, answers, hm'] using ih
  constructor
  · rintro ⟨w', h, rfl, rfl⟩
    obtain ⟨hok, rfl⟩ := Prod.mk.inj h
    refine ⟨rfl, (hfind w.replies _).1 ?_⟩
    rw [← hok]
  · rintro ⟨rfl, h⟩
    obtain ⟨rest, hfound, hrest⟩ := (hfind w.replies []).2 h
    refine ⟨{ w with replies := rest }, ?_, rfl, hrest⟩
    simp [readUntil, hfound]

theorem findExpected_CNXN (m' : AdbMessage) (replies : List Reply) : findExpected [.CNXN] (.message m' :: replies) =
    if m'.command = .CNXN then (.ok m', replies) else findExpected [.CNXN] replies := by
  simp [findExpected]

theorem answers_of_findExpected {replies rest : List Reply} (h : findExpected [.CNXN] replies = (.ok m, rest)) :
    m.command = .CNXN ∧
      ∃ auths, (∀ a ∈ auths, a.command = .AUTH) ∧ answers replies = auths ++ m :: answers rest := by
  induction replies with
  | nil => simp [findExpected] at h
  | cons reply replies ih =>
      cases reply with
      | readFailed isTimeout => simp [findExpected] at h
      | message m' =>
          rw [findExpected_CNXN] at h
          split_ifs at h with hcnxn
          · cases h
            exact ⟨hcnxn, [], by simp, by simp [answers, hcnxn]⟩
          · obtain ⟨hm, auths, hauths, heq⟩ := ih h
            by_cases hauth : m'.command = .AUTH
            · refine ⟨hm, m' :: auths, ?_, by simp [answers, hauth, heq]⟩
              rintro a (_ | ⟨_, ha⟩)
              · exact hauth
              · exact hauths a ha
            · exact ⟨hm, auths, hauths, by simp [answers, hcnxn, hauth, heq]⟩

theorem exists_findExpected {replies : List Reply} {auths : List AdbMessage} (hm : m.command = .CNXN)
    (hauths : ∀ a ∈ auths, a.command = .AUTH) (h : answers replies = auths ++ m :: ms) :
    ∃ rest, findExpected [.CNXN] replies = (.ok m, rest) ∧ answers rest = ms := by
  induction replies generalizing auths with
  | nil => simp [answers] at h
  | cons reply replies ih =>
      cases reply with
      | readFailed isTimeout => simp [answers] at h
      | message m' =>
          rw [answers] at h
          rw [findExpected_CNXN]
          cases auths with
          | nil =>
              split_ifs at h with hm'
              · obtain ⟨rfl, rfl⟩ := List.cons.inj h
                exact ⟨replies, if_pos hm, rfl⟩
              · rw [if_neg fun hcnxn ↦ hm' (.inr hcnxn)]
                exact ih hauths h
          | cons a auths =>
              have ha := hauths a List.mem_cons_self
              split_ifs at h with hm'
              · obtain ⟨rfl, hreplies⟩ := List.cons.inj h
                rw [if_neg (by simp [ha])]
                exact ih (fun b hb ↦ hauths b (List.mem_cons_of_mem _ hb)) hreplies
              · rw [if_neg fun hcnxn ↦ hm' (.inr hcnxn)]
                exact ih hauths h

/-- The next CNXN is read, whatever else comes before it. -/
theorem returns_readUntil_CNXN :
    Returns (readUntil [.CNXN]) w m sent ms ↔ sent = w.sent ∧ m.command = .CNXN ∧
      ∃ auths, (∀ a ∈ auths, a.command = .AUTH) ∧ answers w.replies = auths ++ m :: ms := by
  constructor
  · rintro ⟨w', h, rfl, rfl⟩
    obtain ⟨hok, rfl⟩ := Prod.mk.inj h
    refine ⟨rfl, answers_of_findExpected ?_⟩
    rw [← hok]
  · rintro ⟨rfl, hm, auths, hauths, h⟩
    obtain ⟨rest, hfound, hrest⟩ := exists_findExpected hm hauths h
    exact ⟨{ w with replies := rest }, by simp [readUntil, hfound], rfl, hrest⟩

/-! ## What `connect` sends -/

theorem returns_send {m : AdbMessage} {β : Type} {f : Unit → Act Wire ConnectError β} {b : β} :
    Returns (send m >>= f) w b sent ms ↔ Returns (f ()) { w with sent := w.sent ++ [m] } b sent ms := by
  rw [returns_bind_iff]
  constructor
  · rintro ⟨a, w', h, hf⟩
    cases h
    exact hf
  · exact fun h ↦ ⟨(), _, rfl, h⟩

theorem returns_pure {α : Type} {a b : α} :
    Returns (pure a) w b sent ms ↔ a = b ∧ sent = w.sent ∧ ms = answers w.replies := by
  constructor
  · rintro ⟨w', h, rfl, rfl⟩
    cases h
    exact ⟨rfl, rfl, rfl⟩
  · rintro ⟨rfl, rfl, rfl⟩
    exact ⟨w, rfl, rfl, rfl⟩

theorem not_returns_raise {α : Type} {e : ConnectError} {a : α} : ¬Returns (Act.raise e) w a sent ms := by
  rintro ⟨w', h, -⟩
  cases h

/-- What a key has sent when the next answer has been read. -/
theorem returns_ask {α : Type} {msg : AdbMessage} {f : AdbMessage → Act Wire ConnectError α} {a : α} :
    Returns (do send msg; let m ← readUntil [.AUTH, .CNXN]; f m) w a sent ms ↔
      ∃ m w₁, readUntil [.AUTH, .CNXN] { w with sent := w.sent ++ [msg] } = (.ok m, w₁) ∧
        w₁.sent = w.sent ++ [msg] ∧ answers w.replies = m :: answers w₁.replies ∧ Returns (f m) w₁ a sent ms := by
  rw [returns_send, returns_bind_iff]
  constructor
  · rintro ⟨m, w₁, hread, hf⟩
    obtain ⟨hsent, hanswers⟩ := returns_readUntil.mp ⟨w₁, hread, rfl, rfl⟩
    exact ⟨m, w₁, hread, hsent, hanswers, hf⟩
  · rintro ⟨m, w₁, hread, -, -, hf⟩
    exact ⟨m, w₁, hread, hf⟩

/-- The keys answer one token each until the device connects. -/
theorem returns_tryKeys_some (keys : List AuthSigner) {msg : AdbMessage} (hmsg : msg.command = .AUTH) (w : Wire) :
    Returns (tryKeys keys msg) w (some m) sent ms ↔ m.command = .CNXN ∧ ∃ ts,
      ts ≠ [] ∧ (∀ t ∈ ts, IsToken t) ∧ ts.length ≤ keys.length ∧ msg :: answers w.replies = ts ++ m :: ms ∧
        sent = w.sent ++ List.zipWith signature keys ts := by
  induction keys generalizing msg w with
  | nil =>
      rw [tryKeys, returns_pure]
      constructor
      · rintro ⟨⟨⟩, -⟩
      · rintro ⟨-, ts, hne, -, hlength, -⟩
        exact absurd (List.length_eq_zero_iff.mp (Nat.le_zero.mp hlength)) hne
  | cons key keys ih =>
      rw [tryKeys]
      by_cases htoken : msg.arg0 = AUTH_TOKEN
      · rw [if_neg (not_not.mpr htoken), returns_ask]
        constructor
        · rintro ⟨m₁, w₁, -, hsent, hanswers, hf⟩
          split_ifs at hf with hcnxn
          · obtain ⟨⟨⟩, rfl, rfl⟩ := returns_pure.mp hf
            refine ⟨hcnxn, [msg], by simp, by simpa using ⟨hmsg, htoken⟩, by simp, by simp [hanswers], ?_⟩
            simpa [signature] using hsent
          · have hauth : m₁.command = .AUTH :=
              (command_of_mem_answers (hanswers ▸ List.mem_cons_self)).resolve_right hcnxn
            obtain ⟨hm, ts, -, htokens, hlength, heq, rfl⟩ := (ih hauth w₁).mp hf
            refine ⟨hm, msg :: ts, by simp, ?_, by simpa using hlength, by simp [hanswers, heq], ?_⟩
            · rintro t (_ | ⟨_, ht⟩)
              · exact ⟨hmsg, htoken⟩
              · exact htokens t ht
            · simp [hsent, signature]
        · rintro ⟨hm, ts, hne, htokens, hlength, heq, rfl⟩
          cases ts with
          | nil => exact absurd rfl hne
          | cons t ts =>
              obtain ⟨rfl, hrest⟩ := List.cons.inj heq
              cases ts with
              | nil =>
                  obtain ⟨w₁, hread, hsent, hanswers⟩ :=
                    (returns_readUntil (w := { w with sent := w.sent ++ [signature key msg] })).mpr ⟨rfl, hrest⟩
                  refine ⟨m, w₁, hread, hsent, hanswers.symm ▸ hrest, ?_⟩
                  rw [if_pos hm, returns_pure]
                  exact ⟨rfl, by simpa [signature] using hsent.symm, hanswers.symm⟩
              | cons t ts =>
                  obtain ⟨w₁, hread, hsent, hanswers⟩ :=
                    (returns_readUntil (w := { w with sent := w.sent ++ [signature key msg] })).mpr ⟨rfl, hrest⟩
                  have ht := (htokens t (by simp)).1
                  refine ⟨t, w₁, hread, hsent, hanswers.symm ▸ hrest, ?_⟩
                  rw [if_neg (by simp [ht]), ih ht]
                  refine ⟨hm, t :: ts, by simp, fun u hu ↦ htokens u (List.mem_cons_of_mem _ hu), ?_, ?_, ?_⟩
                  · simpa using hlength
                  · rw [hanswers]
                    rfl
                  · simp [hsent]
      · rw [if_pos htoken]
        constructor
        · exact fun h ↦ absurd h not_returns_raise
        · rintro ⟨-, ts, hne, htokens, -, heq, -⟩
          cases ts with
          | nil => exact absurd rfl hne
          | cons t ts =>
              obtain ⟨rfl, -⟩ := List.cons.inj heq
              exact absurd (htokens _ List.mem_cons_self).2 htoken

/-- Each key has answered a token, and the device sends one more AUTH message. -/
theorem returns_tryKeys_none (keys : List AuthSigner) {msg : AdbMessage} (hmsg : msg.command = .AUTH) (w : Wire) :
    Returns (tryKeys keys msg) w none sent ms ↔ ∃ ts a,
      (∀ t ∈ ts, IsToken t) ∧ a.command = .AUTH ∧ ts.length = keys.length ∧
        msg :: answers w.replies = ts ++ a :: ms ∧ sent = w.sent ++ List.zipWith signature keys ts := by
  induction keys generalizing msg w with
  | nil =>
      rw [tryKeys, returns_pure]
      constructor
      · rintro ⟨-, rfl, rfl⟩
        exact ⟨[], msg, by simp, hmsg, rfl, rfl, by simp⟩
      · rintro ⟨ts, a, -, -, hlength, heq, rfl⟩
        obtain rfl := List.length_eq_zero_iff.mp hlength
        obtain ⟨-, rfl⟩ := List.cons.inj heq
        exact ⟨rfl, by simp, rfl⟩
  | cons key keys ih =>
      rw [tryKeys]
      by_cases htoken : msg.arg0 = AUTH_TOKEN
      · rw [if_neg (not_not.mpr htoken), returns_ask]
        constructor
        · rintro ⟨m₁, w₁, -, hsent, hanswers, hf⟩
          split_ifs at hf with hcnxn
          · obtain ⟨⟨⟩, -⟩ := returns_pure.mp hf
          · have hauth : m₁.command = .AUTH :=
              (command_of_mem_answers (hanswers ▸ List.mem_cons_self)).resolve_right hcnxn
            obtain ⟨ts, a, htokens, ha, hlength, heq, rfl⟩ := (ih hauth w₁).mp hf
            refine ⟨msg :: ts, a, ?_, ha, by simpa using hlength, by simp [hanswers, heq], ?_⟩
            · rintro t (_ | ⟨_, ht⟩)
              · exact ⟨hmsg, htoken⟩
              · exact htokens t ht
            · simp [hsent, signature]
        · rintro ⟨ts, a, htokens, ha, hlength, heq, rfl⟩
          cases ts with
          | nil => simp at hlength
          | cons t ts =>
              obtain ⟨rfl, hrest⟩ := List.cons.inj heq
              -- The next answer is a token for the next key, or the last AUTH message.
              obtain ⟨m₁, hm₁, ms₁, hrest₁⟩ : ∃ m₁, m₁.command = .AUTH ∧ ∃ ms₁, ts ++ a :: ms = m₁ :: ms₁ := by
                cases ts with
                | nil => exact ⟨a, ha, ms, rfl⟩
                | cons t ts => exact ⟨t, (htokens t (by simp)).1, ts ++ a :: ms, rfl⟩
              obtain ⟨w₁, hread, hsent, hanswers⟩ :=
                (returns_readUntil (w := { w with sent := w.sent ++ [signature key msg] })).mpr
                  ⟨rfl, hrest.trans hrest₁⟩
              refine ⟨m₁, w₁, hread, hsent, hanswers.symm ▸ hrest.trans hrest₁, ?_⟩
              rw [if_neg (by simp [hm₁]), ih hm₁]
              refine ⟨ts, a, fun u hu ↦ htokens u (List.mem_cons_of_mem _ hu), ha, by simpa using hlength, ?_, ?_⟩
              · rw [hanswers, hrest₁]
              · simp [hsent]
      · rw [if_pos htoken]
        constructor
        · exact fun h ↦ absurd h not_returns_raise
        · rintro ⟨ts, a, htokens, -, hlength, heq, -⟩
          cases ts with
          | nil => simp at hlength
          | cons t ts =>
              obtain ⟨rfl, -⟩ := List.cons.inj heq
              exact absurd (htokens _ List.mem_cons_self).2 htoken

/-- A handler that raises in its turn. -/
theorem returns_catching {α : Type} {x : Act Wire ConnectError α} {handler : ConnectError → Act Wire ConnectError α}
    {a : α} (h : ∀ e, ∃ e', handler e = Act.raise e') :
    Returns (Act.catching x handler) w a sent ms ↔ Returns x w a sent ms := by
  unfold Returns Act.catching
  rcases x w with ⟨e | b, w'⟩
  · obtain ⟨e', he'⟩ := h e
    simp [he']
  · simp

theorem returns_sendPublicKey (key : AuthSigner) :
    Returns (sendPublicKey key) w m sent ms ↔ sent = w.sent ++ [publicKeyMessage key] ∧ m.command = .CNXN ∧
      ∃ auths, (∀ a ∈ auths, a.command = .AUTH) ∧ answers w.replies = auths ++ m :: ms := by
  rw [sendPublicKey, returns_send, returns_catching, returns_readUntil_CNXN]
  · exact Iff.rfl
  · intro e
    cases e with
    | readFailed isTimeout => cases isTimeout <;> exact ⟨_, rfl⟩
    | _ => exact ⟨_, rfl⟩

theorem connects_of_returns {keys : List AuthSigner} {out : List AdbMessage}
    (h : Returns (exchange keys) w m (w.sent ++ out) ms) : Connects keys (answers w.replies) m ms out := by
  rw [exchange, returns_ask] at h
  obtain ⟨m₁, w₁, -, hsent, hanswers, hf⟩ := h
  split_ifs at hf with hcnxn
  · obtain ⟨rfl, hout, rfl⟩ := returns_pure.mp hf
    rw [hsent] at hout
    obtain rfl := List.append_cancel_left hout
    rw [hanswers]
    have hnone : ∀ t ∈ ([] : List AdbMessage), IsToken t := by simp
    have hsigned : Connects keys ([] ++ m₁ :: answers w₁.replies) m₁ _ _ := .signed hnone hcnxn (Nat.zero_le _)
    simpa [hello] using hsigned
  · have hauth : m₁.command = .AUTH :=
      (command_of_mem_answers (hanswers ▸ List.mem_cons_self)).resolve_right hcnxn
    cases keys with
    | nil => exact absurd hf not_returns_raise
    | cons key keys =>
        obtain ⟨found, w₂, htry, hf⟩ := returns_bind_iff.mp hf
        have hreturns : Returns (tryKeys (key :: keys) m₁) w₁ found w₂.sent (answers w₂.replies) :=
          ⟨w₂, htry, rfl, rfl⟩
        cases found with
        | some m₂ =>
            obtain ⟨rfl, hout, rfl⟩ := returns_pure.mp hf
            obtain ⟨hm, ts, -, htokens, hlength, heq, hsent₂⟩ := (returns_tryKeys_some _ hauth w₁).mp hreturns
            rw [hsent₂, hsent, List.append_assoc] at hout
            obtain rfl := List.append_cancel_left hout
            rw [hanswers, heq]
            exact .signed htokens hm hlength
        | none =>
            obtain ⟨ts, a, htokens, ha, hlength, heq, hsent₂⟩ := (returns_tryKeys_none _ hauth w₁).mp hreturns
            obtain ⟨hout, hm, auths, hauths, heq₂⟩ := (returns_sendPublicKey key).mp hf
            rw [hsent₂, hsent, List.append_assoc, List.append_assoc] at hout
            obtain rfl := List.append_cancel_left hout
            rw [hanswers, heq, heq₂, ← List.cons_append, ← List.append_assoc]
            exact .accepted rfl htokens hlength ha hauths hm

/-- The device asks for a signature first. -/
theorem returns_exchange_token {key : AuthSigner} {keys : List AuthSigner} {t : AdbMessage} {more out : List AdbMessage}
    (ht : t.command = .AUTH) (h : answers w.replies = t :: more)
    (hf : ∀ w₁, answers w₁.replies = more → ∃ found w₂, tryKeys (key :: keys) t w₁ = (.ok found, w₂) ∧
      Returns (match found with | some msg => pure msg | none => sendPublicKey key) w₂ m (w₁.sent ++ out) ms) :
    Returns (exchange (key :: keys)) w m (w.sent ++ hello :: out) ms := by
  rw [exchange, returns_ask]
  obtain ⟨w₁, hread, hsent, hanswers⟩ :=
    (returns_readUntil (w := { w with sent := w.sent ++ [hello] })).mpr ⟨rfl, h⟩
  refine ⟨t, w₁, hread, hsent, hanswers.symm ▸ h, ?_⟩
  rw [if_neg (by simp [ht]), returns_bind_iff]
  obtain ⟨found, w₂, htry, hreturns⟩ := hf w₁ hanswers
  rw [hsent, List.append_assoc] at hreturns
  exact ⟨found, w₂, htry, hreturns⟩

theorem returns_of_connects {keys : List AuthSigner} {out : List AdbMessage}
    (h : Connects keys (answers w.replies) m ms out) : Returns (exchange keys) w m (w.sent ++ out) ms := by
  generalize hanswers : answers w.replies = answered at h
  cases h with
  | @signed ts _ _ htokens hm hlength =>
      cases ts with
      | nil =>
          obtain ⟨w₁, hread, hsent, hrest⟩ :=
            (returns_readUntil (w := { w with sent := w.sent ++ [hello] })).mpr ⟨rfl, hanswers⟩
          rw [exchange, returns_ask]
          refine ⟨m, w₁, hread, hsent, hrest.symm ▸ hanswers, ?_⟩
          rw [if_pos hm, returns_pure]
          exact ⟨rfl, by simp [hsent], hrest.symm⟩
      | cons t ts =>
          cases keys with
          | nil => simp at hlength
          | cons key keys =>
              have ht := (htokens t List.mem_cons_self).1
              apply returns_exchange_token ht hanswers
              intro w₁ hrest
              obtain ⟨w₂, htry, hsent, hms⟩ := (returns_tryKeys_some (key :: keys) ht w₁).mpr
                ⟨hm, t :: ts, by simp, htokens, hlength, by rw [hrest]; rfl, rfl⟩
              exact ⟨some m, w₂, htry, returns_pure.mpr ⟨rfl, hsent.symm, hms.symm⟩⟩
  | @accepted key ts a auths _ _ hkey htokens hlength ha hauths hm =>
      cases keys with
      | nil => cases hkey
      | cons key' keys =>
          obtain rfl := Option.some.inj hkey
          cases ts with
          | nil => simp at hlength
          | cons t ts =>
              have ht := (htokens t List.mem_cons_self).1
              apply returns_exchange_token ht hanswers
              intro w₁ hrest
              have heq : t :: answers w₁.replies = t :: ts ++ a :: (auths ++ m :: ms) := by
                rw [hrest]
                simp
              obtain ⟨w₂, htry, hsent, hms⟩ := (returns_tryKeys_none (key' :: keys) ht w₁).mpr
                ⟨t :: ts, a, htokens, ha, hlength, heq, rfl⟩
              refine ⟨none, w₂, htry, (returns_sendPublicKey key').mpr ⟨?_, hm, auths, hauths, hms⟩⟩
              rw [hsent, List.append_assoc]
              rfl

theorem returns_exchange {keys : List AuthSigner} {out : List AdbMessage} :
    Returns (exchange keys) w m (w.sent ++ out) ms ↔ Connects keys (answers w.replies) m ms out :=
  ⟨connects_of_returns, returns_of_connects⟩

/-- Whatever the device does, `connect` returns if and only if the device sends a CNXN
with a banner of three parts after at most as many tokens as there are keys, or after a
token for each key and at least one more AUTH message; each key signs the token that it
is asked for, and the first one's public key is sent when none of them was liked. -/
theorem connect_returns_iff (keys : List AuthSigner) (w : Wire) (c : AdbConnection) (out : List AdbMessage) :
    (∃ w', connect keys w = (.ok c, w') ∧ w'.sent = w.sent ++ out) ↔
      ∃ m rest, Connects keys (answers w.replies) m rest out ∧ init m.arg1 m.data = .ok c := by
  constructor
  · rintro ⟨w', h, hsent⟩
    obtain ⟨m, w₁, hexchange, hinit⟩ := Act.bind_eq_ok_iff.mp h
    obtain ⟨hok, rfl⟩ := Prod.mk.inj ((Act.ofExcept_apply _ _).symm.trans hinit)
    exact ⟨m, _, returns_exchange.mp ⟨w₁, hexchange, hsent, rfl⟩, hok⟩
  · rintro ⟨m, rest, hconnects, hok⟩
    obtain ⟨w₁, hexchange, hsent, -⟩ := returns_exchange.mpr hconnects
    exact ⟨w₁, Act.bind_eq_ok_iff.mpr ⟨m, w₁, hexchange, by rw [Act.ofExcept_apply, hok]⟩, hsent⟩

end OpenHtf.Adb.Handshake
