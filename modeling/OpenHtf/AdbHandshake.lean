import OpenHtf.AdbMessage

/-!
# The handshake of an ADB connection

`AdbConnection.connect` and what it makes of the device's CNXN.
-/

set_option autoImplicit false

namespace OpenHtf.Adb.Handshake

def MAX_ADB_DATA : ℕ := 4096

def ADB_VERSION : ℕ := 0x01000000

/-- `'host::%s\0' % ADB_BANNER`. -/
def hostBanner : List UInt8 := "host::googlex_adb\x00".toUTF8.toList

def AUTH_TOKEN : ℕ := 1

def AUTH_SIGNATURE : ℕ := 2

def AUTH_RSAPUBLICKEY : ℕ := 3

structure AuthSigner where
  sign : List UInt8 → List UInt8
  publicKey : List UInt8

/-- What `read_message` gives: a message, or a `UsbReadFailedError`. -/
inductive Reply where
  | message (m : AdbMessage)
  | readFailed (isTimeout : Bool)

/-- The texts are those of `DeviceAuthError`s; the others are an `AdbProtocolError`
for an AUTH message or a banner, the `AdbTimeoutError` of `read_until`, and what
the read raised. -/
inductive ConnectError where
  | deviceAuth (text : String)
  | badAuthResponse (m : AdbMessage)
  | malformedBanner (banner : List UInt8)
  | timedOut
  | readFailed (isTimeout : Bool)

/-- What the device answers until the timeout, and what has been sent. -/
structure Wire where
  replies : List Reply
  sent : List AdbMessage := []

structure AdbConnection where
  systemtype : List UInt8
  serial : List UInt8
  banner : List UInt8
  maxdata : ℕ

def send (m : AdbMessage) : Act Wire ConnectError Unit :=
  Act.modify fun w ↦ { w with sent := w.sent ++ [m] }

/-- The first of the replies with an expected command, and the replies behind it. -/
def findExpected (expected : List Command) : List Reply → Except ConnectError AdbMessage × List Reply
  | [] => (.error .timedOut, [])
  | .readFailed isTimeout :: rest => (.error (.readFailed isTimeout), rest)
  | .message m :: rest => if m.command ∈ expected then (.ok m, rest) else findExpected expected rest

def readUntil (expected : List Command) : Act Wire ConnectError AdbMessage := fun w ↦
  let (found, rest) := findExpected expected w.replies
  (found, { w with replies := rest })

/-- `remote_banner.split(':', 2)`, if it has three parts. -/
def splitBanner (remoteBanner : List UInt8) : Option (List UInt8 × List UInt8 × List UInt8) :=
  match remoteBanner.dropWhile (· ≠ 58) with
  | [] => none
  | _ :: rest =>
    match rest.dropWhile (· ≠ 58) with
    | [] => none
    | _ :: banner => some (remoteBanner.takeWhile (· ≠ 58), rest.takeWhile (· ≠ 58), banner)

/-- `AdbConnection.__init__`. -/
def init (maxdata : ℕ) (remoteBanner : List UInt8) : Except ConnectError AdbConnection :=
  match splitBanner remoteBanner with
  | some (systemtype, serial, banner) => .ok ⟨systemtype, serial, banner, maxdata⟩
  | none => .error (.malformedBanner remoteBanner)

/-- The loop over the keys: it ends with a CNXN, or when no key is left. -/
def tryKeys : List AuthSigner → AdbMessage → Act Wire ConnectError (Option AdbMessage)
  | [], _ => pure none
  | key :: keys, msg =>
    if msg.arg0 ≠ AUTH_TOKEN then Act.raise (.badAuthResponse msg)
    else do
      send ⟨.AUTH, AUTH_SIGNATURE, 0, key.sign msg.data⟩
      let msg ← readUntil [.AUTH, .CNXN]
      if msg.command = .CNXN then pure (some msg) else tryKeys keys msg

/-- The last attempt of `connect`, with a public key. -/
def sendPublicKey (key : AuthSigner) : Act Wire ConnectError AdbMessage := do
  send ⟨.AUTH, AUTH_RSAPUBLICKEY, 0, key.publicKey ++ [0]⟩
  Act.catching (readUntil [.CNXN]) fun e ↦
    match e with
    | .readFailed true => Act.raise (.deviceAuth "Accept auth key on device, then retry.")
    | e => Act.raise e

/-- The messages of `connect` up to the device's CNXN. -/
def exchange (rsaKeys : List AuthSigner) : Act Wire ConnectError AdbMessage := do
  send ⟨.CNXN, ADB_VERSION, MAX_ADB_DATA, hostBanner⟩
  let msg ← readUntil [.AUTH, .CNXN]
  if msg.command = .CNXN then pure msg
  else
    match rsaKeys with
    | [] => Act.raise (.deviceAuth "Device authentication required, no keys available.")
    | key :: keys => do
      match ← tryKeys (key :: keys) msg with
      | some msg => pure msg
      | none => sendPublicKey key

def connect (rsaKeys : List AuthSigner) : Act Wire ConnectError AdbConnection := do
  let msg ← exchange rsaKeys
  Act.ofExcept (init msg.arg1 msg.data)

/-! ## What the handshake accepts -/

/-- The replies are read off the wire, so their arguments are words. -/
def Wire.Words (w : Wire) : Prop := ∀ m, .message m ∈ w.replies → m.arg1 < 2 ^ 32

/-- Some device with this `maxdata` is accepted. -/
def Accepts (maxdata : ℕ) : Prop :=
  ∃ rsaKeys w w' c, w.Words ∧ connect rsaKeys w = (.ok c, w') ∧ c.maxdata = maxdata

/-- From replies off the wire, the statement returns as `Q` says. -/
def Gives {α : Type} (Q : α → Prop) (x : Act Wire ConnectError α) : Prop :=
  ∀ w, w.Words → Act.wp x (fun a w' ↦ Q a ∧ w'.Words) (fun _ _ ↦ True) w

namespace Gives

variable {α β : Type} {Q : α → Prop} {P : β → Prop}

theorem pure {a : α} (h : Q a) : Gives Q (pure a) := fun _ hw ↦ ⟨h, hw⟩

theorem raise {e : ConnectError} : Gives Q (Act.raise e) := fun _ _ ↦ trivial

theorem bind {x : Act Wire ConnectError β} {f : β → Act Wire ConnectError α} (hx : Gives P x)
    (hf : ∀ b, P b → Gives Q (f b)) : Gives Q (x >>= f) := by
  intro w hw
  rw [Act.wp_bind]
  apply (hx w hw).mono
  · rintro b w' ⟨hb, hw'⟩
    exact hf b hb w' hw'
  · exact fun _ _ _ ↦ trivial

theorem ite {c : Prop} [Decidable c] {x y : Act Wire ConnectError α} (hx : Gives Q x)
    (hy : Gives Q y) : Gives Q (if c then x else y) := by
  split
  · exact hx
  · exact hy

end Gives

theorem gives_send (m : AdbMessage) : Gives (fun _ ↦ True) (send m) := fun _ hw ↦ ⟨trivial, hw⟩

theorem findExpected_subset (expected : List Command) (replies : List Reply) :
    (findExpected expected replies).2 ⊆ replies ∧
      ∀ m, (findExpected expected replies).1 = .ok m → .message m ∈ replies := by
  induction replies with
  | nil => simp [findExpected]
  | cons reply rest ih =>
      cases reply with
      | readFailed isTimeout => simp [findExpected]
      | message m =>
          rw [findExpected]
          split
          · refine ⟨List.subset_cons_self _ _, ?_⟩
            rintro m' ⟨⟩
            exact List.mem_cons_self
          · exact ⟨fun r hr ↦ List.mem_cons_of_mem _ (ih.1 hr),
              fun m' h ↦ List.mem_cons_of_mem _ (ih.2 m' h)⟩

theorem gives_readUntil (expected : List Command) :
    Gives (fun m ↦ m.arg1 < 2 ^ 32) (readUntil expected) := by
  intro w hw
  have hsubset := findExpected_subset expected w.replies
  simp only [Act.wp, readUntil]
  cases hfound : (findExpected expected w.replies).1 with
  | error e => trivial
  | ok m => exact ⟨hw m (hsubset.2 m hfound), fun m' hm' ↦ hw m' (hsubset.1 hm')⟩

/-- A message is sent, and the answer to it read. -/
theorem gives_ask {α : Type} {Q : α → Prop} {m : AdbMessage} {expected : List Command}
    {f : AdbMessage → Act Wire ConnectError α} (hf : ∀ m, m.arg1 < 2 ^ 32 → Gives Q (f m)) :
    Gives Q (do
      send m
      let m ← readUntil expected
      f m) := by
  apply (gives_send m).bind
  rintro - -
  exact (gives_readUntil expected).bind hf

theorem gives_tryKeys (keys : List AuthSigner) (msg : AdbMessage) :
    Gives (fun found ↦ ∀ m, found = some m → m.arg1 < 2 ^ 32) (tryKeys keys msg) := by
  induction keys generalizing msg with
  | nil =>
      apply Gives.pure
      rintro m ⟨⟩
  | cons key keys ih =>
      apply Gives.ite Gives.raise
      apply gives_ask
      intro m hm
      apply Gives.ite
      · apply Gives.pure
        rintro m' ⟨⟩
        exact hm
      · exact ih m

theorem gives_sendPublicKey (key : AuthSigner) :
    Gives (fun m ↦ m.arg1 < 2 ^ 32) (sendPublicKey key) := by
  apply (gives_send _).bind
  rintro - -
  intro w hw
  rw [Act.wp_catching]
  apply (gives_readUntil _ w hw).mono
  · exact fun _ _ h ↦ h
  · rintro e w' -
    dsimp only
    split <;> trivial

theorem gives_exchange (rsaKeys : List AuthSigner) :
    Gives (fun m ↦ m.arg1 < 2 ^ 32) (exchange rsaKeys) := by
  apply gives_ask
  intro m hm
  apply Gives.ite
  · exact Gives.pure hm
  · cases rsaKeys with
    | nil => exact Gives.raise
    | cons key keys =>
        apply (gives_tryKeys _ _).bind
        intro found hfound
        cases found with
        | some m' => exact Gives.pure (hfound m' rfl)
        | none => exact gives_sendPublicKey key

/-- The handshake rejects no word: a connection may have any `maxdata`, `0` included. -/
theorem accepts_iff (maxdata : ℕ) : Accepts maxdata ↔ maxdata < 2 ^ 32 := by
  constructor
  · rintro ⟨rsaKeys, w, w', c, hwords, hconnect, rfl⟩
    obtain ⟨m, t, hexchange, hinit⟩ := Act.bind_eq_ok_iff.mp hconnect
    have hm := ((gives_exchange rsaKeys w hwords).of_ok hexchange).1
    have hinit : init m.arg1 m.data = .ok c := congrArg Prod.fst hinit
    rw [init] at hinit
    split at hinit
    · obtain rfl := Except.ok.inj hinit
      exact hm
    · contradiction
  · intro hlt
    refine ⟨[], ⟨[.message ⟨.CNXN, ADB_VERSION, maxdata, [58, 58]⟩], []⟩, _, _, ?_, rfl, rfl⟩
    intro m hm
    obtain rfl : m = ⟨.CNXN, ADB_VERSION, maxdata, [58, 58]⟩ := by simpa using hm
    exact hlt

end OpenHtf.Adb.Handshake
