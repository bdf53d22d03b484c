import OpenHtf.AdbConnection

/-!
# The steps of an ADB connection

What each action does to a connection, and when it can be taken: the case split
over which the invariants of the connection are proved.
-/

set_option autoImplicit false

namespace OpenHtf.Adb

/-! ## The thread that holds the lock -/

inductive ReaderStepped (i : ℕ) (call : Call) (s : State) : ReaderPc → State → Prop
  | pops (m : AdbMessage) (rest : List AdbMessage) (hqueue : (s.streams i).transport.messageQueue = m :: rest) :
      ReaderStepped i call s .locked ((s.modify i (Stream.pop call m rest)).setReader none)
  | receives (hqueue : (s.streams i).transport.messageQueue = []) :
      ReaderStepped i call s .locked (s.setReader (some (i, .receiving)))
  | reads (f : Frame) (rest : List Frame) (hincoming : s.incoming = f :: rest) :
      ReaderStepped i call s .receiving ((s.setIncoming rest).setReader (some (i, .handling f)))
  | unexpected (f : Frame) (hunknown : f.message.command ∉ [Command.OKAY, .CLSE, .WRTE]) :
      ReaderStepped i call s (.handling f)
        ((s.modify i (Stream.raise call (.unexpectedMessage f.message))).setReader none)
  | own (f : Frame) (hown : f.message.arg1 = (s.streams i).localId) :
      ReaderStepped i call s (.handling f) (s.handleOwn i call f)
  | forwards (f : Frame) (dest : ℕ) (hother : f.message.arg1 ≠ (s.streams i).localId)
      (hlookup : s.lookup f.message.arg1 = some dest) :
      ReaderStepped i call s (.handling f) (s.setReader (some (i, .forwarding f dest)))
  | drops (f : Frame) (hother : f.message.arg1 ≠ (s.streams i).localId)
      (hlookup : s.lookup f.message.arg1 = none) :
      ReaderStepped i call s (.handling f)
        ((s.modify f.addressee (Stream.lose f.message)).setReader (some (i, .receiving)))
  | closes (f : Frame) (dest : ℕ) (hclse : f.message.command = .CLSE) :
      ReaderStepped i call s (.forwarding f dest)
        ((s.closeStreamTransport dest).setReader (some (i, .enqueuing f dest)))
  | keepsOpen (f : Frame) (dest : ℕ) (hclse : f.message.command ≠ .CLSE) :
      ReaderStepped i call s (.forwarding f dest) (s.setReader (some (i, .enqueuing f dest)))
  | fails (f : Frame) (dest : ℕ) (e : StreamError)
      (hack : (s.streams dest).transport.acknowledge f.message = .error e) :
      ReaderStepped i call s (.enqueuing f dest)
        (((s.modify f.addressee (Stream.lose f.message)).modify i (Stream.raise call e)).setReader none)
  | acknowledges (f : Frame) (dest : ℕ) (out : List AdbMessage) (t : StreamTransport)
      (hack : (s.streams dest).transport.acknowledge f.message = .ok (out, t)) :
      ReaderStepped i call s (.enqueuing f dest)
        ((s.modify dest (Stream.accept f.message out t)).setReader (some (i, .putting f dest)))
  | puts (f : Frame) (dest : ℕ) :
      ReaderStepped i call s (.putting f dest)
        ((s.modify dest (Stream.enqueue f.message)).setReader (some (i, .receiving)))

variable {s s' : State} {i : ℕ}

theorem readerStepped {call : Call} {pos : ReaderPc} (h : s.readerStep i call pos = some s') :
    ReaderStepped i call s pos s' := by
  unfold State.readerStep at h
  split at h
  · split at h
    · obtain rfl := Option.some.inj h
      exact .pops _ _ ‹_›
    · obtain rfl := Option.some.inj h
      exact .receives ‹_›
  · split at h
    · obtain rfl := Option.some.inj h
      exact .reads _ _ ‹_›
    · cases h
  · split at h
    · obtain rfl := Option.some.inj h
      exact .unexpected _ ‹_›
    split at h
    · obtain rfl := Option.some.inj h
      exact .own _ ‹_›
    split at h
    · obtain rfl := Option.some.inj h
      exact .forwards _ _ ‹_› ‹_›
    · obtain rfl := Option.some.inj h
      exact .drops _ ‹_› ‹_›
  · split at h
    · obtain rfl := Option.some.inj h
      exact .closes _ _ ‹_›
    · obtain rfl := Option.some.inj h
      exact .keepsOpen _ _ ‹_›
  · split at h
    · obtain rfl := Option.some.inj h
      exact .fails _ _ _ ‹_›
    · obtain rfl := Option.some.inj h
      exact .acknowledges _ _ _ _ ‹_›
  · obtain rfl := Option.some.inj h
    exact .puts _ _

/-! ## The thread of a stream -/

inductive RunStepped (i : ℕ) (s : State) : State → Prop
  | found (call : Call) (j : ℕ) (hpc : (s.streams i).pc = .polling call)
      (hlookup : s.lookup (s.streams i).localId = some j) :
      RunStepped i s (s.modify i (Stream.setPc (.waiting call)))
  | notFound (call : Call) (hpc : (s.streams i).pc = .polling call)
      (hlookup : s.lookup (s.streams i).localId = none) :
      RunStepped i s (s.modify i (Stream.setPc (.leaving call)))
  | locks (call : Call) (hpc : (s.streams i).pc = .locking call) (hreader : s.reader = none) :
      RunStepped i s ((s.modify i (Stream.setPc (.inside call))).setReader (some (i, .locked)))
  | busy (call : Call) (hpc : (s.streams i).pc = .locking call) :
      RunStepped i s (s.modify i (Stream.setPc (.polling call)))
  | reads (call : Call) (pos : ReaderPc) (s' : State) (hpc : (s.streams i).pc = .inside call)
      (hreader : s.reader = some (i, pos)) (h : ReaderStepped i call s pos s') : RunStepped i s s'
  | alone (x : Stream) (hpc : ∀ call, (s.streams i).pc ≠ .inside call)
      (hx : (s.streams i).next = some x) : RunStepped i s (s.modify i fun _ ↦ x)

theorem runStepped (h : s.run i = some s') : RunStepped i s s' := by
  unfold State.run at h
  split at h
  · rename_i call hpc
    split at h
    · obtain rfl := Option.some.inj h
      exact .found call _ hpc ‹_›
    · obtain rfl := Option.some.inj h
      exact .notFound call hpc ‹_›
  · rename_i call hpc
    split at h
    · obtain rfl := Option.some.inj h
      exact .locks call hpc ‹_›
    · obtain rfl := Option.some.inj h
      exact .busy call hpc
  · rename_i call hpc
    split at h
    · rename_i j pos hreader
      split at h
      · rename_i hj
        exact .reads call pos s' hpc (hj ▸ hreader) (readerStepped h)
      · cases h
    · cases h
  · rename_i hpc
    obtain ⟨x, hx, rfl⟩ := Option.map_eq_some_iff.mp h
    exact .alone x hpc hx

/-- The timeout of a call that is not waiting for a message in the lock, or of one that is. -/
inductive TimedOut (i : ℕ) (s : State) : State → Prop
  | outside (call : Call) (hpc : (s.streams i).pc = .polling call ∨ (s.streams i).pc = .waiting call ∨
      (s.streams i).pc = .locking call ∨ (s.streams i).pc = .leaving call) :
      TimedOut i s (s.modify i (Stream.raise call .timedOut))
  | inside (call : Call) (hpc : (s.streams i).pc = .inside call) (hreader : s.reader = some (i, .receiving)) :
      TimedOut i s ((s.modify i (Stream.raise call .timedOut)).setReader none)

theorem timedOut (h : s.timeout i = some s') : TimedOut i s s' := by
  unfold State.timeout at h
  split at h
  · obtain rfl := Option.some.inj h
    exact .outside _ (.inl ‹_›)
  · obtain rfl := Option.some.inj h
    exact .outside _ (.inr (.inl ‹_›))
  · obtain rfl := Option.some.inj h
    exact .outside _ (.inr (.inr (.inl ‹_›)))
  · obtain rfl := Option.some.inj h
    exact .outside _ (.inr (.inr (.inr ‹_›)))
  · split at h
    · obtain rfl := Option.some.inj h
      exact .inside _ ‹_› ‹_›
    · cases h
  · cases h

/-! ## Every action -/

inductive Stepped (limit : ℕ) (s : State) : Action → State → Prop
  | openStream (destination : List UInt8) :
      Stepped limit s (.openStream destination) (s.openStream limit destination)
  | call (i : ℕ) (call : Call) (hopened : (s.streams i).isOpened = true) (hidle : (s.streams i).pc = .idle)
      (hcall : call ≠ .ensureOpened) : Stepped limit s (.call i call) (s.modify i (Stream.start call))
  | run (i : ℕ) (s' : State) (h : s.run i = some s') : Stepped limit s (.run i) s'
  | timeout (i : ℕ) (s' : State) (h : s.timeout i = some s') : Stepped limit s (.timeout i) s'
  | closed (i : ℕ) : Stepped limit s (.close i) s
  | close (i : ℕ) (hopened : (s.streams i).isOpened = true)
      (hopen : (s.streams i).transport.closedState ≠ .CLOSED) :
      Stepped limit s (.close i) ((s.modify i Stream.markClosed).setClosing (i :: s.closing))
  | finishClose (i : ℕ) (hi : i ∈ s.closing) :
      Stepped limit s (.finishClose i) ((s.closeStreamTransport i).setClosing (s.closing.erase i))
  | deviceOpens (i deviceId : ℕ) (hi : i < s.made) (hasked : (s.streams i).status = .asked)
      (hid : deviceId ≠ 0) :
      Stepped limit s (.deviceOpens i deviceId)
        ((s.modify i (Stream.deviceOpens deviceId)).fromDevice i .OKAY [])
  | deviceAcks (i : ℕ) (hi : i < s.made) (hopened : (s.streams i).status = .opened) :
      Stepped limit s (.deviceAcks i) (s.fromDevice i .OKAY [])
  | deviceWrites (i : ℕ) (data : List UInt8) (hi : i < s.made) (hopened : (s.streams i).status = .opened) :
      Stepped limit s (.deviceWrites i data)
        ((s.modify i (Stream.deviceWrites data)).fromDevice i .WRTE data)
  | deviceCloses (i : ℕ) (hi : i < s.made) (hnot : (s.streams i).status ≠ .closed) :
      Stepped limit s (.deviceCloses i) ((s.modify i Stream.deviceCloses).fromDevice i .CLSE [])

theorem stepped {limit : ℕ} {a : Action} (h : step limit s a = some s') : Stepped limit s a s' := by
  unfold step at h
  split at h
  · obtain rfl := Option.some.inj h
    exact .openStream _
  · split at h
    · rename_i hguard
      obtain rfl := Option.some.inj h
      exact .call _ _ hguard.1 hguard.2.1 hguard.2.2
    · cases h
  · exact .run _ _ h
  · exact .timeout _ _ h
  · split at h
    · split at h
      · obtain rfl := Option.some.inj h
        exact .closed _
      · obtain rfl := Option.some.inj h
        exact .close _ ‹_› ‹_›
    · cases h
  · split at h
    · obtain rfl := Option.some.inj h
      exact .finishClose _ ‹_›
    · cases h
  · split at h
    · rename_i hguard
      obtain rfl := Option.some.inj h
      exact .deviceOpens _ _ hguard.1 hguard.2.1 hguard.2.2
    · cases h
  · split at h
    · rename_i hguard
      obtain rfl := Option.some.inj h
      exact .deviceAcks _ hguard.1 hguard.2
    · cases h
  · split at h
    · rename_i hguard
      obtain rfl := Option.some.inj h
      exact .deviceWrites _ _ hguard.1 hguard.2
    · cases h
  · split at h
    · rename_i hguard
      obtain rfl := Option.some.inj h
      exact .deviceCloses _ hguard.1 hguard.2
    · cases h

end OpenHtf.Adb
