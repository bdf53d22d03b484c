import OpenHtf.AdbDelivery

/-!
# Reading for all ADB streams

The steps of the threads: the holder of `_reader_lock` takes messages for itself
and for others, drops them, and removes streams from the map.
-/

set_option autoImplicit false

namespace OpenHtf.Adb

/-! ## The holder of the lock -/

section Reader

variable {limit : ℕ} {s s' : State} {i : ℕ} {call : Call} {f : Frame} {dest : ℕ} {pos : ReaderPc}

theorem DeliveryInv.of_views (h : DeliveryInv limit s) (hmap : MapErases s s') (hinv : MapInv limit s')
    (hframes : ∀ f ∈ s'.pending, f ∈ s.pending) (hstreams : ∀ j, Controlled s s' j)
    (hholding : s'.Holding) (hviews : ∀ j < s.made, ViewStep (s.view j) (s'.view j)) :
    DeliveryInv limit s' := by
  have hkeeps : ∀ j < s'.made, Accounts (s'.view j) ∧ Consistent (s'.view j) := by
    intro j hj
    rw [hmap.made] at hj
    exact (hviews j hj).keeps (h.accounts j hj) (h.consistent j hj)
  exact ⟨h.toNamed.step hmap hinv (fun f hf ↦ .inl (hframes f hf)) hstreams, hholding,
    fun j hj ↦ (hkeeps j hj).1, fun j hj ↦ (hkeeps j hj).2⟩

/-- Another stream than that of the thread. -/
theorem Controlled.passive {j : ℕ} (hpc : (s'.streams j).pc = (s.streams j).pc)
    (hstatus : (s'.streams j).status = (s.streams j).status)
    (hopened : (s'.streams j).isOpened = (s.streams j).isOpened) (hclosing : s'.closing = s.closing) :
    Controlled s s' j := by
  constructor
  · exact fun hs ↦ hstatus ▸ hs
  · exact fun hr ↦ .inl (hpc ▸ hr)
  · exact fun hd ↦ hpc.trans hd
  · exact .inl hopened
  · intro hu
    rw [Stream.InCall, hpc, hclosing] at hu
    exact .inl hu
  · exact fun hc ↦ .inl (hclosing ▸ hc)

/-- The stream of a thread that was inside. -/
theorem Controlled.inside (hpc : (s.streams i).pc = .inside call)
    (hstatus : (s'.streams i).status = (s.streams i).status)
    (hopened : (s'.streams i).isOpened = (s.streams i).isOpened) (hclosing : s'.closing = s.closing) :
    Controlled s s' i := by
  have hcall : (s.streams i).InCall := by
    constructor <;> simp [hpc]
  constructor
  · exact fun hs ↦ hstatus ▸ hs
  · intro _
    rw [hpc]
    exact .inl trivial
  · exact fun hd ↦ absurd hd hcall.1
  · exact .inl hopened
  · exact fun _ ↦ .inl (.inl hcall)
  · exact fun hc ↦ .inl (hclosing ▸ hc)

theorem pending_of_reader (h : s.reader = some (i, pos)) : s.pending = pos.hand ++ s.incoming := by
  rw [State.pending, State.hand, h]

theorem putting_of_reader (h : s.reader = some (i, pos)) (j : ℕ) : s.putting j = pos.toPut j := by
  rw [State.putting, h]

theorem pipe_congr (h : s'.pending = s.pending) (j : ℕ) : s'.pipe j = s.pipe j := by
  rw [State.pipe, h, State.pipe]

/-- The first message is not on its way any more. -/
theorem pipe_of_cons (h : s.pending = f :: s'.pending) (j : ℕ) :
    s.pipe j = if f.addressee = j then f.message :: s'.pipe j else s'.pipe j := by
  rw [State.pipe, h, List.filter_cons]
  simp only [decide_eq_true_eq]
  split <;> rfl

/-- The holder of the lock changes a stream and moves. -/
theorem DeliveryInv.reads (h : DeliveryInv limit s) (hreader : s.reader = some (i, pos))
    (hpc : (s.streams i).pc = .inside call) {k : ℕ} {g : Stream → Stream} {r : Option (ℕ × ReaderPc)}
    (hid : (g (s.streams k)).localId = (s.streams k).localId)
    (hother : k ≠ i → (g (s.streams k)).pc = (s.streams k).pc)
    (hstatus : (g (s.streams k)).status = (s.streams k).status)
    (hopened : (g (s.streams k)).isOpened = (s.streams k).isOpened)
    (hframes : ∀ f ∈ ((s.modify k g).setReader r).hand, f ∈ pos.hand)
    (hholding : ((s.modify k g).setReader r).Holding)
    (hview : ViewStep (s.view k) ⟨g (s.streams k), ((s.modify k g).setReader r).pipe k,
      ((s.modify k g).setReader r).putting k, s.Mapped k⟩)
    (hpipe : ∀ j, j ≠ k → ((s.modify k g).setReader r).pipe j = s.pipe j)
    (hputting : ∀ j, j ≠ k → ((s.modify k g).setReader r).putting j = s.putting j) :
    DeliveryInv limit ((s.modify k g).setReader r) := by
  have hsame : SameMap s ((s.modify k g).setReader r) := ((SameMap.refl s).modify hid).setReader r
  have hself : ((s.modify k g).setReader r).streams k = g (s.streams k) := streams_modify_self g
  refine h.of_views (.same hsame) (h.toMapInv.same hsame) ?_ ?_ hholding ?_
  · intro f hf
    rw [pending_of_reader hreader]
    exact (List.mem_append.mp hf).elim (fun hf ↦ List.mem_append.mpr (.inl (hframes f hf)))
      fun hf ↦ List.mem_append.mpr (.inr hf)
  · intro j
    by_cases hjk : j = k
    · subst hjk
      rw [← hself] at hstatus hopened hother
      by_cases hji : j = i
      · subst hji
        exact .inside hpc hstatus hopened rfl
      · exact .passive (hother hji) hstatus hopened rfl
    · exact .same (streams_modify_ne hjk g) id
  · intro j _
    by_cases hj : j = k
    · subst hj
      rwa [view_eq hself rfl rfl Iff.rfl]
    · exact viewStep_same (streams_modify_ne hj g) (hpipe j hj) (hputting j hj) Iff.rfl

/-- The holder of the lock only moves. -/
theorem DeliveryInv.moves (h : DeliveryInv limit s) (hreader : s.reader = some (i, pos))
    (hpc : (s.streams i).pc = .inside call) {pos' : ReaderPc} (hhand : pos'.hand = pos.hand)
    (hput : pos'.toPut = pos.toPut) (hfits : s.Fits i pos') :
    DeliveryInv limit (s.setReader (some (i, pos'))) := by
  have hsame : SameMap s (s.setReader (some (i, pos'))) := (SameMap.refl s).setReader _
  have hpending : (s.setReader (some (i, pos'))).pending = s.pending := by
    rw [pending_of_reader hreader, ← hhand]
    rfl
  refine h.of_views (.same hsame) (h.toMapInv.same hsame) (fun f hf ↦ hpending ▸ hf)
    (fun j ↦ .same rfl id) ?_ fun j _ ↦ viewStep_same rfl (pipe_congr hpending j) ?_ Iff.rfl
  · intro k pos'' hk
    obtain ⟨rfl, rfl⟩ := Prod.mk.inj (Option.some.inj hk)
    exact ⟨⟨call, hpc⟩, hfits.mono rfl (fun _ hnone ↦ hnone) (fun _ _ hm ↦ hm) (Nat.le_refl _)⟩
  · rw [putting_of_reader hreader, ← hput]
    rfl

/-- The holder of the lock leaves with a message of its own queue. -/
theorem DeliveryInv.popLocked (h : DeliveryInv limit s) (hreader : s.reader = some (i, .locked))
    (hpc : (s.streams i).pc = .inside call) {m : AdbMessage} {rest : List AdbMessage}
    (hqueue : (s.streams i).transport.messageQueue = m :: rest) :
    DeliveryInv limit ((s.modify i (Stream.pop call m rest)).setReader none) := by
  have hpending : ((s.modify i (Stream.pop call m rest)).setReader none).pending = s.pending :=
    (pending_of_reader hreader).symm
  have hputting : ∀ j, ((s.modify i (Stream.pop call m rest)).setReader none).putting j = s.putting j :=
    fun j ↦ (putting_of_reader hreader j).symm
  refine h.reads hreader hpc rfl (absurd rfl) rfl rfl nofun nofun ?_
    (fun j _ ↦ pipe_congr hpending j) fun j _ ↦ hputting j
  rw [pipe_congr hpending, hputting]
  refine .quiet (quiet_pop (v := s.view i) ?_ hqueue ?_)
  · rw [State.view, hpc]
    rfl
  · rw [State.view, hpc]
    exact id

/-- The next message is read from the device. -/
theorem DeliveryInv.receive (h : DeliveryInv limit s) (hreader : s.reader = some (i, .receiving))
    (hpc : (s.streams i).pc = .inside call) {rest : List Frame} (hincoming : s.incoming = f :: rest) :
    DeliveryInv limit ((s.setIncoming rest).setReader (some (i, .handling f))) := by
  have hsame : SameMap s ((s.setIncoming rest).setReader (some (i, .handling f))) :=
    ((SameMap.refl s).setIncoming rest).setReader _
  have hpending : ((s.setIncoming rest).setReader (some (i, .handling f))).pending = s.pending := by
    rw [pending_of_reader hreader, hincoming]
    rfl
  refine h.of_views (.same hsame) (h.toMapInv.same hsame) (fun f hf ↦ hpending ▸ hf)
    (fun j ↦ .same rfl id) ?_ fun j _ ↦ viewStep_same rfl (pipe_congr hpending j) ?_ Iff.rfl
  · intro k pos hk
    obtain ⟨rfl, rfl⟩ := Prod.mk.inj (Option.some.inj hk)
    exact ⟨⟨call, hpc⟩, (h.holding i _ hreader).2⟩
  · exact (putting_of_reader hreader j).symm

/-- The lock is taken. -/
theorem DeliveryInv.acquire (h : DeliveryInv limit s) (hreader : s.reader = none)
    (hpc : (s.streams i).pc = .inside call) : DeliveryInv limit (s.setReader (some (i, .locked))) := by
  have hsame : SameMap s (s.setReader (some (i, .locked))) := (SameMap.refl s).setReader _
  have hpending : (s.setReader (some (i, .locked))).pending = s.pending := by
    rw [State.pending, State.pending, State.hand, State.hand, hreader]
    rfl
  refine h.of_views (.same hsame) (h.toMapInv.same hsame) (fun f hf ↦ hpending ▸ hf)
    (fun j ↦ .same rfl id) ?_ fun j _ ↦ viewStep_same rfl (pipe_congr hpending j) ?_ Iff.rfl
  · intro k pos hk
    obtain ⟨rfl, rfl⟩ := Prod.mk.inj (Option.some.inj hk)
    exact ⟨⟨call, hpc⟩, trivial⟩
  · rw [State.putting, State.putting, hreader]
    rfl

/-- The holder of the lock gives up. -/
theorem DeliveryInv.giveUp (h : DeliveryInv limit s) (hreader : s.reader = some (i, .receiving))
    (hpc : (s.streams i).pc = .inside call) (e : StreamError) :
    DeliveryInv limit ((s.modify i (Stream.raise call e)).setReader none) := by
  have hpending : ((s.modify i (Stream.raise call e)).setReader none).pending = s.pending :=
    (pending_of_reader hreader).symm
  have hputting : ∀ j, ((s.modify i (Stream.raise call e)).setReader none).putting j = s.putting j :=
    fun j ↦ (putting_of_reader hreader j).symm
  refine h.reads hreader hpc rfl (absurd rfl) rfl rfl nofun nofun ?_
    (fun j _ ↦ pipe_congr hpending j) fun j _ ↦ hputting j
  rw [pipe_congr hpending, hputting]
  refine .quiet (quiet_raise (v := s.view i) ?_ e)
  rw [State.view, hpc]
  rfl

/-- A message for a stream that the map does not have is dropped. -/
theorem DeliveryInv.drop (h : DeliveryInv limit s) (hreader : s.reader = some (i, .handling f))
    (hpc : (s.streams i).pc = .inside call) (hnone : s.lookup f.message.arg1 = none) :
    DeliveryInv limit ((s.modify f.addressee (Stream.lose f.message)).setReader (some (i, .receiving))) := by
  let s' := (s.modify f.addressee (Stream.lose f.message)).setReader (some (i, .receiving))
  have hpending : s.pending = f :: s'.pending := pending_of_reader hreader
  have hputting : ∀ j, s'.putting j = s.putting j := fun j ↦ (putting_of_reader hreader j).symm
  have hunmapped : ¬s.Mapped f.addressee := by
    intro hm
    have hlookup := h.toMapInv.lookup_of_mapped hm
    rw [← (h.frames f (by simp [hpending])).2, hnone] at hlookup
    cases hlookup
  have hkeeps : (s'.streams i).pc = (s.streams i).pc ∧
      (s'.streams i).transport.messageQueue = (s.streams i).transport.messageQueue := by
    by_cases hi : i = f.addressee
    · subst hi
      simp only [s', State.setReader, streams_modify_self]
      exact ⟨rfl, rfl⟩
    · simp only [s', State.setReader, streams_modify_ne hi, and_self]
  refine h.reads hreader hpc rfl (fun _ ↦ rfl) rfl rfl nofun ?_ ?_ (fun j hj ↦ ?_) fun j _ ↦ hputting j
  · intro k pos hk
    obtain ⟨rfl, rfl⟩ := Prod.mk.inj (Option.some.inj hk)
    exact ⟨⟨call, hkeeps.1.trans hpc⟩, hkeeps.2.trans (h.holding i _ hreader).2⟩
  · rw [hputting]
    have hpipe := pipe_of_cons hpending f.addressee
    rw [if_pos rfl] at hpipe
    exact .dropped (v := s.view f.addressee) hpipe hunmapped
  · have hpipe := pipe_of_cons hpending j
    rwa [if_neg hj.symm, eq_comm] at hpipe

/-- The holder of the lock takes a message for itself, and releases the lock. -/
theorem DeliveryInv.takeOwn (h : DeliveryInv limit s) (hreader : s.reader = some (i, .handling f))
    (hpc : (s.streams i).pc = .inside call) (hi : f.addressee = i) {g : Stream → Stream}
    (out : List AdbMessage)
    (hg : g (s.streams i) =
      ((s.streams i).accept f.message out (s.streams i).transport).setPc (.got call f.message))
    (hout : Acknowledged f.message (s.streams i).transport out)
    (hlost : f.message.command = .WRTE → (s.streams i).lost = [])
    (hclse : f.message.command = .CLSE → ¬s.Mapped i) :
    DeliveryInv limit ((s.modify i g).setReader none) := by
  have hpending : s.pending = f :: ((s.modify i g).setReader none).pending := pending_of_reader hreader
  have hputting : ∀ j, s.putting j = [] := putting_of_reader hreader
  have hmade : i < s.made := h.made_of_inCall (inCall_of_reading (by rw [hpc]; exact trivial))
  refine h.reads hreader hpc (by rw [hg]; rfl) (absurd rfl) (by rw [hg]; rfl) (by rw [hg]; rfl) nofun nofun ?_
    (fun j hj ↦ ?_) fun j _ ↦ (hputting j).symm
  · have hpipe := pipe_of_cons hpending i
    rw [if_pos hi] at hpipe
    have hqueue : (s.streams i).transport.messageQueue = [] := (h.holding i _ hreader).2
    have hheld : (s.view i).held = [] := by
      rw [View.held, State.view, hputting, hpc, hqueue]
      rfl
    refine .taken f.message (.of_accept (h.consistent i hmade) hpipe ?_ hg rfl hclse hlost (.refl _ _) hout ?_)
    · rw [hheld, View.held, hg]
      change [f.message] ++ (s.streams i).transport.messageQueue ++ [] = [f.message]
      rw [hqueue]
      rfl
    · rw [State.view, hpc]
      exact id
  · have hpipe := pipe_of_cons hpending j
    rwa [if_neg fun hij ↦ hj (hij.symm.trans hi), eq_comm] at hpipe

/-- A message is accepted for another stream. -/
theorem DeliveryInv.takeOther (h : DeliveryInv limit s) (hreader : s.reader = some (i, .enqueuing f dest))
    (hpc : (s.streams i).pc = .inside call) {out : List AdbMessage} {t : StreamTransport}
    (hack : (s.streams dest).transport.acknowledge f.message = .ok (out, t)) :
    DeliveryInv limit ((s.modify dest (Stream.accept f.message out t)).setReader (some (i, .putting f dest))) := by
  let s' := (s.modify dest (Stream.accept f.message out t)).setReader (some (i, .putting f dest))
  have hpending : s.pending = f :: s'.pending := pending_of_reader hreader
  have hputting : ∀ j, s.putting j = [] := putting_of_reader hreader
  obtain ⟨-, hqueue, rfl, hne, hlost, hclse⟩ := h.holding i _ hreader
  have hmade : f.addressee < s.made := (h.frames f (by simp [hpending])).1
  have hc := h.consistent f.addressee hmade
  have hpipe := pipe_of_cons hpending f.addressee
  rw [if_pos rfl] at hpipe
  have hmem : f.message ∈ (s.view f.addressee).line := by
    refine List.mem_append.mpr (.inr ?_)
    rw [State.view, hpipe]
    exact List.mem_cons_self
  obtain ⟨hset, hout⟩ := StreamTransport.acknowledge_ok (fun hokay ↦ by
    obtain ⟨hid, hzero⟩ := hc.stamped _ hmem hokay
    rwa [hid]) hack
  refine h.reads hreader hpc hset.localId (fun _ ↦ rfl) rfl rfl (fun _ hg ↦ absurd hg List.not_mem_nil) ?_ ?_
    (fun j hj ↦ ?_) fun j hj ↦ ?_
  · intro k pos hk
    obtain ⟨rfl, rfl⟩ := Prod.mk.inj (Option.some.inj hk)
    simp only [State.Fits, State.setReader, streams_modify_ne hne.symm]
    exact ⟨⟨call, hpc⟩, hqueue, hne, hmade⟩
  · refine .taken f.message (.of_accept (p := (s.streams f.addressee).pc) hc hpipe ?_ rfl rfl hclse
      (fun _ ↦ hlost) hset hout id)
    have hput : s'.putting f.addressee = [f.message] := if_pos rfl
    change (s.streams f.addressee).pc.toHandle ++ t.messageQueue ++ s'.putting f.addressee = _
    rw [hput, hset.messageQueue, View.held, State.view, hputting, List.append_nil]
  · have hother := pipe_of_cons hpending j
    rwa [if_neg hj.symm, eq_comm] at hother
  · rw [hputting]
    exact if_neg hj.symm

/-- The message is put into the queue. -/
theorem DeliveryInv.put (h : DeliveryInv limit s) (hreader : s.reader = some (i, .putting f dest))
    (hpc : (s.streams i).pc = .inside call) :
    DeliveryInv limit ((s.modify dest (Stream.enqueue f.message)).setReader (some (i, .receiving))) := by
  let s' := (s.modify dest (Stream.enqueue f.message)).setReader (some (i, .receiving))
  have hpending : s'.pending = s.pending := (pending_of_reader hreader).symm
  have hputting := putting_of_reader hreader
  obtain ⟨-, hqueue, hne, -⟩ := h.holding i _ hreader
  refine h.reads hreader hpc rfl (fun _ ↦ rfl) rfl rfl nofun ?_ ?_ (fun j _ ↦ pipe_congr hpending j)
    fun j hj ↦ ?_
  · intro k pos hk
    obtain ⟨rfl, rfl⟩ := Prod.mk.inj (Option.some.inj hk)
    simp only [State.Fits, State.setReader, streams_modify_ne hne.symm]
    exact ⟨⟨call, hpc⟩, hqueue⟩
  · rw [pipe_congr hpending]
    refine .quiet ⟨rfl, ?_, .inl Iff.rfl, rfl, rfl, rfl, rfl, rfl, rfl, rfl, rfl, rfl, rfl, .inl rfl, id⟩
    have hput : s.putting dest = [f.message] := by
      rw [hputting]
      exact if_pos rfl
    rw [View.held, View.held, State.view, hput]
    simp [Stream.enqueue, State.putting, State.setReader, ReaderPc.toPut]
  · rw [hputting]
    exact (if_neg hj.symm).symm

end Reader

/-! ## Removing a stream from the map -/

section Close

variable {limit : ℕ} {s : State} {i : ℕ}

theorem Stream.sendClse_eq (x : Stream) : x.sendClse = { x with sent := x.sendClse.sent } := by
  unfold Stream.sendClse
  split <;> rfl

theorem Stream.okays_sendClse (x : Stream) : okays x.sendClse.sent = okays x.sent := by
  unfold Stream.sendClse
  split
  · rfl
  · simp [okays]

theorem quiet_sendClse {v : View} (hguard : v.stream.isOpened = true ∨
    ∃ m rest, v.pipe = m :: rest ∧ m.command = .CLSE) :
    Quiet v { v with stream := v.stream.sendClse, mapped := False } := by
  have hokays := v.stream.okays_sendClse
  rw [v.stream.sendClse_eq]
  exact ⟨rfl, rfl, .inr ⟨id, hguard⟩, rfl, rfl, rfl, rfl, hokays, rfl, rfl, rfl, rfl, rfl, .inl rfl, id⟩

/-- Nothing but the map, and what is sent, changes. -/
theorem close_streams (s : State) (i j : ℕ) : ∃ sent,
    (s.closeStreamTransport i).streams j = { s.streams j with sent := sent } := by
  unfold State.closeStreamTransport
  split
  · exact ⟨_, rfl⟩
  · by_cases hj : j = i
    · subst hj
      rw [streams_modify_self, Stream.sendClse_eq]
      exact ⟨_, rfl⟩
    · rw [streams_modify_ne hj]
      exact ⟨_, rfl⟩

theorem close_frame (s : State) (i : ℕ) : (s.closeStreamTransport i).reader = s.reader ∧
    (s.closeStreamTransport i).incoming = s.incoming ∧ (s.closeStreamTransport i).closing = s.closing := by
  unfold State.closeStreamTransport
  split <;> exact ⟨rfl, rfl, rfl⟩

theorem close_pending (s : State) (i : ℕ) : (s.closeStreamTransport i).pending = s.pending := by
  obtain ⟨hreader, hincoming, -⟩ := close_frame s i
  rw [State.pending, State.hand, hreader, hincoming, State.pending, State.hand]

/-- An entry that holds its own stream is the only one of it. -/
theorem mapped_close (h : MapInv limit s) (hown : ∀ j, s.lookup (s.streams i).localId = some j → j = i)
    (j : ℕ) : (s.closeStreamTransport i).Mapped j ↔ s.Mapped j ∧ j ≠ i := by
  unfold State.closeStreamTransport
  split
  · rename_i hnone
    refine ⟨fun hm ↦ ⟨hm, ?_⟩, And.left⟩
    rintro rfl
    rw [h.lookup_of_mapped hm] at hnone
    cases hnone
  · rename_i k hk
    obtain rfl := hown k hk
    have herase : ((s.removeEntry (s.streams k).localId k k).modify k Stream.sendClse).Mapped j ↔
        ∃ e ∈ s.streamTransportMap, e.1 ≠ (s.streams k).localId ∧ e.2 = j := by
      simp [State.Mapped, State.modify, State.removeEntry, dictErase]
    rw [herase]
    constructor
    · rintro ⟨⟨id, n⟩, hmem, hne, rfl⟩
      refine ⟨List.mem_map_of_mem (f := Prod.snd) hmem, ?_⟩
      rintro rfl
      exact hne (h.localId _ _ hmem).symm
    · rintro ⟨hm, hne⟩
      obtain ⟨⟨id, n⟩, hmem, rfl⟩ := List.mem_map.mp hm
      refine ⟨_, hmem, fun hid ↦ hne ?_, rfl⟩
      have hlookup := lookup_of_mem h.nodup hmem
      change id = (s.streams k).localId at hid
      rw [hid] at hlookup
      exact Option.some.inj (hlookup.symm.trans hk)

/-- A stream may be removed from the map when it was opened, or when its next message is CLSE. -/
theorem DeliveryInv.close (h : DeliveryInv limit s)
    (hown : ∀ j, s.lookup (s.streams i).localId = some j → j = i)
    (hguard : s.Mapped i → (s.streams i).isOpened = true ∨
      ∃ m rest, s.pipe i = m :: rest ∧ m.command = .CLSE) :
    DeliveryInv limit (s.closeStreamTransport i) := by
  obtain ⟨hreader, hincoming, hclosing⟩ := close_frame s i
  have hmapped := mapped_close h.toMapInv hown
  have hmap : MapErases s (s.closeStreamTransport i) := mapErases_close fun _ ht ↦ ht
  have hinv : MapInv limit (s.closeStreamTransport i) := by
    rcases sameMap_closeStreamTransport (s := s) i with hs | ⟨id, j, hs⟩
    · exact h.toMapInv.same hs
    · exact (h.toMapInv.removeEntry id i j).same hs
  refine h.of_views hmap hinv (fun f hf ↦ close_pending s i ▸ hf) ?_ ?_ ?_
  · intro j
    obtain ⟨sent, hj⟩ := close_streams s i j
    refine .passive ?_ ?_ ?_ hclosing <;> rw [hj]
  · intro k pos hk
    obtain ⟨hinside, hfits⟩ := h.holding k pos (hreader ▸ hk)
    obtain ⟨sent, hstream⟩ := close_streams s i k
    refine ⟨by rwa [hstream], hfits.mono (by rw [hstream]) (fun d hnone ↦ ?_)
      (fun f _ hm ↦ ((hmapped _).mp hm).1) hmap.made.ge⟩
    obtain ⟨sent', hd⟩ := close_streams s i d
    rwa [hd]
  · intro j _
    have hpipe := pipe_congr (close_pending s i) j
    have hputting : (s.closeStreamTransport i).putting j = s.putting j := by
      rw [State.putting, hreader, State.putting]
    by_cases hj : j = i
    · subst hj
      by_cases hm : s.Mapped j
      · have hstream : (s.closeStreamTransport j).streams j = (s.streams j).sendClse := by
          rw [State.closeStreamTransport, h.toMapInv.lookup_of_mapped hm]
          exact streams_modify_self _
        have hnot : (s.closeStreamTransport j).Mapped j ↔ False := by
          rw [hmapped]
          simp
        rw [view_eq hstream hpipe hputting hnot]
        exact .quiet (quiet_sendClse (v := s.view j) (hguard hm))
      · have hstream : (s.closeStreamTransport j).streams j = s.streams j := by
          rw [State.closeStreamTransport]
          cases hlookup : s.lookup (s.streams j).localId with
          | none => rfl
          | some k =>
              obtain rfl := hown k hlookup
              exact absurd (mapped_of_lookup hlookup) hm
        refine viewStep_same hstream hpipe hputting ?_
        rw [hmapped]
        exact iff_of_false (fun hand ↦ hand.2 rfl) hm
    · refine viewStep_same ?_ hpipe hputting ?_
      · unfold State.closeStreamTransport
        split
        · rfl
        · exact streams_modify_ne hj _
      · rw [hmapped]
        exact and_iff_left hj

end Close

/-! ## Every step of a thread -/

section Run

variable {limit : ℕ} {s s' : State} {i : ℕ} {call : Call} {f : Frame} {dest : ℕ} {pos : ReaderPc}

theorem modify_modify (g g' : Stream → Stream) : (s.modify i g).modify i g' = s.modify i (g' ∘ g) := by
  simp [State.modify]

theorem alive_of_inside (h : Named limit s) (hpc : (s.streams i).pc = .inside call) : s.Alive i := by
  have hreading : (s.streams i).pc.Reading := by
    rw [hpc]
    exact trivial
  exact ⟨h.made_of_inCall (inCall_of_reading hreading), .inr (.inr (.inr hreading))⟩

/-- The first message for a stream is the one that was read. -/
theorem pipe_addressee (hreader : s.reader = some (i, pos)) (hhand : pos.hand = [f]) :
    ∃ rest, s.pipe f.addressee = f.message :: rest := by
  have hpending := pending_of_reader hreader
  rw [hhand] at hpending
  rw [State.pipe, hpending]
  simp

/-- The device answers OPEN before it writes. -/
theorem Consistent.remote_of_wrte {v : View} (hc : Consistent v) {m : AdbMessage} {rest : List AdbMessage}
    (hheld : v.held = []) (hpipe : v.pipe = m :: rest) (hwrte : m.command = .WRTE) : v.remote ≠ none := by
  intro hnone
  by_cases hm : v.mapped
  · refine (hc.front (.inr ⟨hm, hnone⟩)).2 m ?_ hwrte
    rw [View.line, hheld, hpipe]
    rfl
  · have hclosed : v.stream.isOpened = false := by
      cases hopened : v.stream.isOpened with
      | false => rfl
      | true => exact absurd hnone (hc.isOpened hopened)
    have hclse := (hc.unmapped hm hclosed).2 m (by simp [hpipe])
    rw [hwrte] at hclse
    cases hclse

theorem DeliveryInv.handleOwn (h : DeliveryInv limit s) (hreader : s.reader = some (i, .handling f))
    (hpc : (s.streams i).pc = .inside call) (hi : f.addressee = i)
    (hlost : f.message.command = .WRTE → (s.streams i).lost = []) :
    DeliveryInv limit (s.handleOwn i call f) := by
  subst hi
  have hmade := (alive_of_inside h.toNamed hpc).1
  have hc := h.consistent _ hmade
  obtain ⟨rest, hpipe⟩ := pipe_addressee hreader rfl
  have hmem : f.message ∈ (s.view f.addressee).line := by
    refine List.mem_append.mpr (.inr ?_)
    rw [State.view, hpipe]
    exact List.mem_cons_self
  unfold State.handleOwn
  dsimp only
  split
  · rename_i hwrte
    have hheld : (s.view f.addressee).held = [] := by
      have hqueue : (s.streams f.addressee).transport.messageQueue = [] := (h.holding _ _ hreader).2
      rw [View.held, State.view, putting_of_reader hreader, hpc, hqueue]
      rfl
    have hremote := hc.remote_of_wrte hheld hpipe hwrte
    split
    · exact absurd ‹_› hremote
    · rw [modify_modify]
      exact h.takeOwn hreader hpc rfl _ rfl (.inl ⟨hwrte, _, ‹_›, rfl⟩) hlost fun hclse ↦
        absurd (hwrte.symm.trans hclse) (by simp)
  · rename_i hclse
    have hown : ∀ j, s.lookup (s.streams f.addressee).localId = some j → j = f.addressee :=
      fun j ↦ h.own_of_alive (alive_of_inside h.toNamed hpc)
    have hclosed := h.close hown fun _ ↦ .inr ⟨_, _, hpipe, hclse⟩
    obtain ⟨sent, hstream⟩ := close_streams s f.addressee f.addressee
    have hne : f.message.command ≠ .WRTE := by
      rw [hclse]
      simp
    refine hclosed.takeOwn ((close_frame s _).1.trans hreader) (by rw [hstream]; exact hpc) rfl []
      ?_ (.inr ⟨hne, rfl⟩) (fun hwrte ↦ absurd hwrte hne) fun _ hm ↦ ?_
    · simp [Stream.accept, Stream.setPc, payload_of_ne hne]
    · exact ((mapped_close h.toMapInv hown _).mp hm).2 rfl
  · rename_i hnw hnc
    refine h.takeOwn hreader hpc rfl [] ?_ (.inr ⟨hnw, rfl⟩) (fun hwrte ↦ absurd hwrte hnw)
      fun hclse ↦ absurd hclse hnc
    simp [Stream.accept, Stream.setPc, payload_of_ne hnw]

/-- What is put into the queue of another stream is acknowledged. -/
theorem DeliveryInv.acknowledges (h : DeliveryInv limit s) (hreader : s.reader = some (i, .enqueuing f dest))
    (hremote : f.message.command = .WRTE → (s.streams dest).transport.remote ≠ none) (e : StreamError) :
    (s.streams dest).transport.acknowledge f.message ≠ .error e := by
  intro hack
  obtain ⟨-, -, rfl, -⟩ := h.holding i _ hreader
  have hmem : f ∈ s.pending := by simp [pending_of_reader hreader, ReaderPc.hand]
  have hc := h.consistent f.addressee (h.frames f hmem).1
  obtain ⟨rest, hpipe⟩ := pipe_addressee hreader rfl
  unfold StreamTransport.acknowledge at hack
  split at hack
  · rename_i hwrte
    split at hack
    · exact hremote hwrte ‹_›
    · cases hack
  · rename_i hokay
    have hfirst : f.message ∈ (s.view f.addressee).pipe := by
      rw [State.view, hpipe]
      exact List.mem_cons_self
    obtain ⟨hid, -⟩ := hc.stamped _ (List.mem_append.mpr (.inr hfirst)) hokay
    cases hset : (s.streams f.addressee).transport.setOrCheckRemoteId f.message.arg0 with
    | ok t => simp [hset, Except.map] at hack
    | error e' =>
        rcases StreamTransport.setOrCheckRemoteId_error hset with ⟨hnone, hstate⟩ | ⟨id, hsome, hne⟩
        · by_cases hm : s.Mapped f.addressee
          · exact hstate (hc.pending hm hnone)
          · have hclosed : (s.streams f.addressee).isOpened = false := by
              cases hopened : (s.streams f.addressee).isOpened with
              | false => rfl
              | true => exact absurd hnone (hc.isOpened hopened)
            have hclse := (hc.unmapped hm hclosed).2 _ hfirst
            rw [hokay] at hclse
            cases hclse
        · exact hne ((hc.remote id hsome).trans hid.symm)
  · cases hack

theorem deliveryInv_readerStep (h : DeliveryInv limit s) (hreader : s.reader = some (i, pos))
    (hpc : (s.streams i).pc = .inside call) (hcond : Undisturbed limit s (.run i))
    (hstep : ReaderStepped i call s pos s') : DeliveryInv limit s' := by
  have hfits := (h.holding i pos hreader).2
  have hread : s.MayRead i pos := hcond (i, pos) hreader rfl
  have hpending {f : Frame} (hf : f ∈ pos.hand) : f ∈ s.pending := by
    rw [pending_of_reader hreader]
    exact List.mem_append_left _ hf
  cases hstep with
  | pops m rest hqueue => exact h.popLocked hreader hpc hqueue
  | receives hqueue => exact h.moves hreader hpc rfl rfl hqueue
  | reads f rest hincoming => exact h.receive hreader hpc hincoming
  | unexpected f hunknown =>
      have hmem : f ∈ s.pending := hpending List.mem_cons_self
      obtain ⟨rest, hpipe⟩ := pipe_addressee hreader rfl
      refine absurd ((h.consistent f.addressee (h.frames f hmem).1).known _ ?_) hunknown
      refine List.mem_append.mpr (.inr ?_)
      rw [State.view, hpipe]
      exact List.mem_cons_self
  | own f hown =>
      have hmem : f ∈ s.pending := hpending List.mem_cons_self
      have hi : f.addressee = i := h.ids _ _ (h.alive_addressee hmem) (alive_of_inside h.toNamed hpc)
        ((h.frames f hmem).2.symm.trans hown)
      exact h.handleOwn hreader hpc hi fun hwrte ↦ hread hwrte hown
  | forwards f dest hother hlookup =>
      have hmem : f ∈ s.pending := hpending List.mem_cons_self
      obtain ⟨hmade, hid⟩ := h.frames f hmem
      obtain rfl := h.addressee_of_lookup hmem hlookup
      refine h.moves hreader hpc rfl rfl
        ⟨hfits, rfl, ?_, (h.consistent f.addressee hmade).lost (mapped_of_lookup hlookup)⟩
      rintro rfl
      exact hother hid
  | drops f _ hlookup => exact h.drop hreader hpc hlookup
  | closes f dest hclse =>
      obtain ⟨hqueue, hdest, hne, hlost⟩ := hfits
      have hmem : f ∈ s.pending := hpending List.mem_cons_self
      obtain ⟨rest, hpipe⟩ := pipe_addressee hreader rfl
      have hown : ∀ j, s.lookup (s.streams dest).localId = some j → j = dest :=
        fun j ↦ h.own_of_alive (hdest ▸ h.alive_addressee hmem)
      have hclosed := h.close hown fun _ ↦ .inr ⟨_, _, hdest ▸ hpipe, hclse⟩
      have hreader' := (close_frame s dest).1.trans hreader
      obtain ⟨sent, hstream⟩ := close_streams s dest i
      obtain ⟨hqueue', -, -, hlost'⟩ := (hclosed.holding i _ hreader').2
      have hpc' : ((s.closeStreamTransport dest).streams i).pc = .inside call := by
        rw [hstream]
        exact hpc
      refine hclosed.moves hreader' hpc' rfl rfl
        ⟨hqueue', hdest, hne, hlost', fun _ hm ↦ ?_⟩
      exact ((mapped_close h.toMapInv hown _).mp hm).2 rfl
  | keepsOpen f dest hclse =>
      obtain ⟨hqueue, hdest, hne, hlost⟩ := hfits
      exact h.moves hreader hpc rfl rfl ⟨hqueue, hdest, hne, hlost, fun h' ↦ absurd h' hclse⟩
  | fails f dest e hack => exact absurd hack (h.acknowledges hreader hread _)
  | acknowledges f dest out t hack => exact h.takeOther hreader hpc hack
  | puts f dest => exact h.put hreader hpc

/-- In the loop of `read_for_stream` a thread has no message, and is not the reader. -/
theorem loops_of_pc {x : Stream} (hpc : x.pc = .polling call ∨ x.pc = .locking call) :
    (∀ call', x.pc ≠ .inside call') ∧ x.pc.toHandle = [] ∧ (call = .ensureOpened → x.pc.Opening) := by
  rcases hpc with hpc | hpc <;> rw [hpc] <;> exact ⟨nofun, rfl, id⟩

theorem deliveryInv_run (h : DeliveryInv limit s) (hcond : Undisturbed limit s (.run i))
    (hstep : s.run i = some s') : DeliveryInv limit s' := by
  have hcall := inCall_of_run hstep
  have hown := h.own i (.inl hcall)
  cases runStepped hstep with
  | found call j hpc hlookup =>
      obtain ⟨hnot, hgot, hopening⟩ := loops_of_pc (.inl hpc)
      obtain rfl := hown j hlookup
      exact h.move hcall.1 hown hnot (.quiet (quiet_setPc hgot.symm hopening)
        fun _ ↦ .inr (mapped_of_lookup hlookup))
  | notFound call hpc =>
      obtain ⟨hnot, hgot, hopening⟩ := loops_of_pc (.inl hpc)
      exact h.move hcall.1 hown hnot (.quiet (quiet_setPc hgot.symm hopening) False.elim)
  | busy call hpc =>
      obtain ⟨hnot, hgot, hopening⟩ := loops_of_pc (.inr hpc)
      exact h.move hcall.1 hown hnot (.quiet (quiet_setPc hgot.symm hopening) False.elim)
  | locks call hpc hfree =>
      obtain ⟨hnot, hgot, hopening⟩ := loops_of_pc (.inr hpc)
      have hreading : (s.streams i).pc.Reading := by
        rw [hpc]
        exact trivial
      have hmoved := h.move (f := Stream.setPc (.inside call)) hcall.1 hown hnot
        (.quiet (quiet_setPc hgot.symm hopening) fun _ ↦ .inl hreading)
      have hinside : ((s.modify i (Stream.setPc (.inside call))).streams i).pc = .inside call := by
        rw [streams_modify_self]
        rfl
      exact hmoved.acquire hfree hinside
  | reads call pos _ hpc hreader hread => exact deliveryInv_readerStep h hreader hpc hcond hread
  | alone x hinside hx =>
      exact h.move hcall.1 hown hinside (ownStep_next (h.consistent i (h.made_of_inCall hcall)) hx)

theorem deliveryInv_timeout (h : DeliveryInv limit s) (hstep : s.timeout i = some s') :
    DeliveryInv limit s' := by
  have hcall := inCall_of_timeout hstep
  have hown := h.own i (.inl hcall)
  cases timedOut hstep with
  | outside call hpc =>
      have hnot : ∀ call', (s.streams i).pc ≠ .inside call' := by
        rcases hpc with hpc | hpc | hpc | hpc <;> simp [hpc]
      have hgot : (s.streams i).pc.toHandle = [] := by
        rcases hpc with hpc | hpc | hpc | hpc <;> rw [hpc] <;> rfl
      refine h.move hcall.1 hown hnot (.quiet (quiet_raise hgot _) ?_)
      rw [Stream.raise]
      split <;> exact False.elim
  | inside call hpc hreader => exact h.giveUp hreader hpc _

end Run

end OpenHtf.Adb
