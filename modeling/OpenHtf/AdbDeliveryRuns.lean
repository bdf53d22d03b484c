import OpenHtf.AdbReader

/-!
# Runs of ADB streams

The other steps keep the invariant as well, so that in every run without a
disturbance the payloads are delivered in order.  A WRTE that is read between the
answer to OPEN and its handling is lost.
-/

set_option autoImplicit false

namespace OpenHtf.Adb

/-! ## The other steps -/

section Steps

variable {limit : ℕ} {s s' : State} {i : ℕ} {call : Call}

theorem quiet_start {v : View} (hidle : v.stream.pc = .idle) (hcall : call ≠ .ensureOpened) :
    Quiet v { v with stream := v.stream.start call } ∧ ¬(v.stream.start call).pc.Reading := by
  have hgot : v.stream.pc.toHandle = [] := by rw [hidle]; rfl
  have hraise : ∀ e, Quiet v { v with stream := v.stream.raise call e } ∧
      ¬(v.stream.raise call e).pc.Reading := by
    intro e
    refine ⟨quiet_raise hgot e, ?_⟩
    rw [Stream.raise]
    split <;> exact id
  unfold Stream.start
  split
  · split
    · exact hraise _
    · split
      · exact hraise _
      · split
        · exact hraise _
        · refine ⟨⟨rfl, ?_, .inl Iff.rfl, rfl, rfl, rfl, rfl, ?_, rfl, rfl, rfl, rfl, rfl, .inl rfl, fun hopening ↦ by cases hopening⟩, id⟩
          · rw [View.held, View.held, hgot]
            rfl
          · simp [Stream.sendWrte, okays]
  · exact ⟨quiet_setPc hgot.symm fun hopening ↦ absurd hopening hcall, id⟩

theorem deliveryInv_call (h : DeliveryInv limit s) (hidle : (s.streams i).pc = .idle)
    (hcall : call ≠ .ensureOpened) (hown : ∀ j ∈ s.lookup (s.streams i).localId, j = i) :
    DeliveryInv limit (s.modify i (Stream.start call)) := by
  obtain ⟨hquiet, hreading⟩ := quiet_start (v := s.view i) hidle hcall
  exact h.move (by simp [hidle]) hown (by simp [hidle]) (.quiet hquiet fun hr ↦ absurd hr hreading)

theorem deliveryInv_close (h : DeliveryInv limit s) (hopened : (s.streams i).isOpened = true)
    (hown : ∀ j ∈ s.lookup (s.streams i).localId, j = i) :
    DeliveryInv limit ((s.modify i Stream.markClosed).setClosing (i :: s.closing)) := by
  have hsame : SameMap s ((s.modify i Stream.markClosed).setClosing (i :: s.closing)) :=
    ((SameMap.refl s).modify (by rfl)).setClosing _
  have hself : ((s.modify i Stream.markClosed).setClosing (i :: s.closing)).streams i =
      (s.streams i).markClosed := streams_modify_self _
  refine h.of_views (.same hsame) (h.toMapInv.same hsame) (fun f hf ↦ hf) ?_ ?_ ?_
  · intro j
    by_cases hj : j = i
    · subst hj
      constructor
      · rw [hself]
        exact id
      · rw [hself]
        exact .inl
      · rw [hself]
        exact id
      · rw [hself]
        exact .inl rfl
      · exact fun _ ↦ .inr hown
      · exact fun _ ↦ .inr hopened
    · exact .same (streams_modify_ne hj _) (List.mem_of_ne_of_mem hj)
  · intro k pos hk
    obtain ⟨hinside, hfits⟩ := h.holding k pos hk
    by_cases hki : k = i
    · subst hki
      rw [hself]
      refine ⟨hinside, hfits.mono (by rw [hself]; rfl) (fun d hnone ↦ ?_) (fun _ _ hm ↦ hm) (Nat.le_refl _)⟩
      by_cases hd : d = k
      · rw [hd, hself]
        exact hd ▸ hnone
      · exact (congrArg _ (streams_modify_ne hd _)).trans hnone
    · have hsame' := streams_modify_ne (s := s) hki Stream.markClosed
      refine ⟨by rwa [State.setClosing, hsame'], hfits.mono (congrArg _ (congrArg _ hsame'))
        (fun d hnone ↦ ?_) (fun _ _ hm ↦ hm) (Nat.le_refl _)⟩
      by_cases hd : d = i
      · rw [hd, hself]
        exact hd ▸ hnone
      · exact (congrArg _ (streams_modify_ne hd _)).trans hnone
  · intro j _
    refine viewStep_modify (.quiet ?_) j
    exact ⟨rfl, rfl, .inl Iff.rfl, rfl, rfl, rfl, rfl, rfl, rfl, rfl, rfl, rfl, rfl, .inr ⟨hopened, rfl⟩, id⟩

theorem deliveryInv_finishClose (h : DeliveryInv limit s) (hi : i ∈ s.closing) :
    DeliveryInv limit ((s.closeStreamTransport i).setClosing (s.closing.erase i)) := by
  have hclosed := h.close (h.own i (.inr hi)) fun _ ↦ .inl (h.closing i hi)
  have hclosing := (close_frame s i).2.2
  have hsame := (SameMap.refl (s.closeStreamTransport i)).setClosing (s.closing.erase i)
  refine hclosed.of_views (.same hsame) (hclosed.toMapInv.same hsame) (fun f hf ↦ hf) ?_ hclosed.holding
    fun j _ ↦ .quiet (.refl _)
  exact fun j ↦ .same rfl fun hj ↦ hclosing ▸ List.mem_of_mem_erase hj

/-- What the device does. -/
theorem DeliveryInv.send (h : DeliveryInv limit s) (hi : i < s.made) {g : Stream → Stream} {m : AdbMessage}
    (hsent : Sent m (s.streams i) (g (s.streams i))) (hid : m.arg1 = (s.streams i).localId) :
    DeliveryInv limit ((s.modify i g).setIncoming (s.incoming ++ [⟨i, m⟩])) := by
  let s' := (s.modify i g).setIncoming (s.incoming ++ [⟨i, m⟩])
  obtain ⟨htransport, hpc, hopened, -, -, hlost, -⟩ := Sent.fields (v := s.view i) hsent
  have hself : s'.streams i = g (s.streams i) := streams_modify_self g
  have hother : ∀ j, j ≠ i → s'.streams j = s.streams j := fun j hj ↦ streams_modify_ne hj g
  have hsame : SameMap s s' := by
    refine ((SameMap.refl s).modify ?_).setIncoming _
    rw [Stream.localId, htransport]
    rfl
  have hpending : s'.pending = s.pending ++ [⟨i, m⟩] := (List.append_assoc _ _ _).symm
  have hkeeps : ∀ j < s.made, Accounts (s'.view j) ∧ Consistent (s'.view j) := by
    intro j hj
    refine ViewStep.keeps ?_ (h.accounts j hj) (h.consistent j hj)
    by_cases hji : j = i
    · subst hji
      have hpipe : s'.pipe j = s.pipe j ++ [m] := by simp [State.pipe, hpending]
      rw [view_eq hself hpipe rfl Iff.rfl]
      exact .sent (v := s.view j) hsent
    · have hpipe : s'.pipe j = s.pipe j := by simp [State.pipe, hpending, Ne.symm hji]
      exact viewStep_same (hother j hji) hpipe rfl Iff.rfl
  refine ⟨h.toNamed.step (.same hsame) (h.toMapInv.same hsame) ?_ ?_, ?_, fun j hj ↦ (hkeeps j hj).1,
    fun j hj ↦ (hkeeps j hj).2⟩
  · intro f hf
    rw [hpending] at hf
    rcases List.mem_append.mp hf with hf | hf
    · exact .inl hf
    · obtain rfl := List.mem_singleton.mp hf
      exact .inr ⟨hi, hid, hsent.notClosed⟩
  · intro j
    by_cases hj : j = i
    · subst hj
      constructor
      · exact fun _ ↦ hsent.notClosed
      · rw [hself, hpc]
        exact .inl
      · rw [hself, hpc]
        exact id
      · exact .inl (by rw [hself, hopened]; rfl)
      · rw [Stream.InCall, hself, hpc]
        exact .inl
      · exact .inl
    · exact .same (hother j hj) id
  · intro k pos hk
    obtain ⟨hinside, hfits⟩ := h.holding k pos hk
    have hkeep : ∀ j, (s'.streams j).pc = (s.streams j).pc ∧
        (s'.streams j).transport = (s.streams j).transport ∧ (s'.streams j).lost = (s.streams j).lost := by
      intro j
      by_cases hj : j = i
      · subst hj
        rw [hself]
        exact ⟨hpc, htransport, hlost⟩
      · rw [hother j hj]
        exact ⟨rfl, rfl, rfl⟩
    refine ⟨by rwa [(hkeep k).1], hfits.mono (by rw [(hkeep k).2.1]) (fun d hnone ↦ ?_) (fun _ _ hm ↦ hm)
      (Nat.le_refl _)⟩
    rw [(hkeep d).2.2, hnone]

/-- A stream that has just been made. -/
theorem new_view (id : ℕ) (destination : List UInt8) :
    Accounts ⟨.newStream id destination, [], [], True⟩ ∧
      Consistent ⟨.newStream id destination, [], [], True⟩ := by
  refine ⟨⟨rfl, rfl, rfl⟩, ?_⟩
  constructor
  case lost => exact fun _ ↦ rfl
  case asked => exact fun _ ↦ ⟨rfl, rfl, rfl⟩
  case opened => exact nofun
  case known => exact nofun
  case stamped => exact nofun
  case remote => exact nofun
  case isOpen => exact nofun
  case isOpened => exact nofun
  case pending => exact fun _ _ ↦ rfl
  case opening => exact fun _ ↦ rfl
  case closes => exact nofun
  case last => exact .nil
  case closed => exact nofun
  case unmapped => exact fun hnot ↦ absurd trivial hnot
  case front => exact fun _ ↦ ⟨nofun, nofun⟩

/-- A stream is made, and gets this id. -/
structure Opened (id : ℕ) (destination : List UInt8) (s s' : State) : Prop where
  made : s'.made = s.made + 1
  new : s'.streams s.made = .newStream id destination
  old : ∀ i, i ≠ s.made → s'.streams i = s.streams i
  lookup : ∀ id', s'.lookup id' = if id' = id then some s.made else s.lookup id'
  mapped : ∀ i, s'.Mapped i ↔ s.Mapped i ∨ i = s.made
  reader : s'.reader = s.reader
  closing : s'.closing = s.closing
  incoming : s'.incoming = s.incoming

theorem opened_openStream {id : ℕ} {destination : List UInt8} (hfree : s.freeId limit = some id) :
    Opened id destination s (s.openStream limit destination) := by
  have hnotMem : id ∉ s.streamTransportMap.map Prod.fst := freeId_not_mem hfree
  rw [State.openStream, hfree]
  refine ⟨rfl, Function.update_self _ _ _, fun i hi ↦ Function.update_of_ne hi _ _,
    fun id' ↦ lookup_dictSet id id' s.made s.streamTransportMap, fun i ↦ ?_, rfl, rfl, rfl⟩
  change i ∈ (dictSet id s.made s.streamTransportMap).map Prod.snd ↔ _
  rw [dictSet_of_not_mem hnotMem]
  simp [State.Mapped]

namespace Opened

variable {id : ℕ} {destination : List UInt8}

theorem pending (ho : Opened id destination s s') : s'.pending = s.pending := by
  rw [State.pending, State.hand, ho.reader, ho.incoming, State.pending, State.hand]

theorem alive (ho : Opened id destination s s') (hi : s'.Alive i) (hne : i ≠ s.made) : s.Alive i := by
  obtain ⟨hmade, halive⟩ := hi
  rw [ho.old i hne, ho.mapped, pipe_congr ho.pending] at halive
  rw [ho.made] at hmade
  exact ⟨Nat.lt_of_le_of_ne (Nat.le_of_lt_succ hmade) hne,
    halive.imp_left fun hm ↦ hm.resolve_right hne⟩

/-- A stream that is alive does not have the new id. -/
theorem id_ne (h : DeliveryInv limit s) (hfree : s.freeId limit = some id)
    (hfinished : ∀ i < s.made, (s.streams i).localId = id → s.Finished i) (hi : s.Alive i) :
    (s.streams i).localId ≠ id := by
  intro hid
  obtain ⟨hstatus, hpipe, hcall, -⟩ := hfinished i hi.1 hid
  rcases hi.2 with hm | hne | hopen | hreading
  · have hentry := mem_of_lookup (h.toMapInv.lookup_of_mapped hm)
    rw [hid] at hentry
    exact freeId_not_mem hfree (List.mem_map_of_mem (f := Prod.fst) hentry)
  · exact hne hpipe
  · exact hopen hstatus
  · exact hcall (inCall_of_reading hreading)

theorem named (ho : Opened id destination s s') (h : DeliveryInv limit s) (hinv : MapInv limit s')
    (hfree : s.freeId limit = some id)
    (hfinished : ∀ i < s.made, (s.streams i).localId = id → s.Finished i) : Named limit s' := by
  have hclosed : (s.streams s.made).isOpened = false := (h.unmade _ (Nat.le_refl _)).2
  refine ⟨hinv, ?_, ?_, ?_, ?_, ?_⟩
  · intro f hf
    obtain ⟨hi, hid⟩ := h.frames f (ho.pending ▸ hf)
    rw [ho.made, ho.old _ (Nat.ne_of_lt hi)]
    exact ⟨Nat.lt_succ_of_lt hi, hid⟩
  · intro i hi
    rw [ho.made] at hi
    rw [ho.old i (by omega)]
    exact h.unmade i (by omega)
  · intro i j hi hj hid
    by_cases hin : i = s.made
    · by_cases hjn : j = s.made
      · rw [hin, hjn]
      · rw [hin, ho.new, ho.old j hjn] at hid
        exact absurd hid.symm (id_ne h hfree hfinished (ho.alive hj hjn))
    · have hai := ho.alive hi hin
      by_cases hjn : j = s.made
      · rw [hjn, ho.new, ho.old i hin] at hid
        exact absurd hid (id_ne h hfree hfinished hai)
      · rw [ho.old i hin, ho.old j hjn] at hid
        exact h.ids i j hai (ho.alive hj hjn) hid
  · intro i hi j hj
    rw [ho.lookup] at hj
    by_cases hin : i = s.made
    · rw [hin, ho.new, if_pos (by rfl)] at hj
      rw [hin]
      exact (Option.some.inj hj).symm
    · rw [ho.old i hin, ho.closing] at hi
      rw [ho.old i hin] at hj
      split at hj
      · -- A stream in use does not have the new id.
        have hmade : i < s.made := by
          rcases hi with hcall | hclosing
          · exact h.made_of_inCall hcall
          · by_contra hle
            have hopened := h.closing i hclosing
            rw [(h.unmade i (by omega)).2] at hopened
            cases hopened
        obtain ⟨-, -, hcall, hclosing⟩ := hfinished i hmade ‹_›
        exact absurd hi (not_or.mpr ⟨hcall, hclosing⟩)
      · exact h.own i hi j hj
  · intro i hi
    have hopened := h.closing i (ho.closing ▸ hi)
    rwa [ho.old i]
    rintro rfl
    rw [hclosed] at hopened
    cases hopened

theorem holding (ho : Opened id destination s s') (h : DeliveryInv limit s) : s'.Holding := by
  intro k pos hk
  rw [ho.reader] at hk
  obtain ⟨⟨call, hpc⟩, hfits⟩ := h.holding k pos hk
  have hkn : k ≠ s.made := Nat.ne_of_lt (alive_of_inside h.toNamed hpc).1
  rw [ho.old k hkn]
  refine ⟨⟨call, hpc⟩, hfits.mono (by rw [ho.old k hkn]) (fun d hnone ↦ ?_) (fun f hf hm ↦ ?_)
    (by rw [ho.made]; exact Nat.le_succ _)⟩
  · by_cases hd : d = s.made
    · rw [hd, ho.new]
      rfl
    · rwa [ho.old d hd]
  · have hpending : f ∈ s.pending := by
      rw [pending_of_reader hk]
      exact List.mem_append.mpr (.inl hf)
    exact ((ho.mapped _).mp hm).resolve_right (Nat.ne_of_lt (h.frames f hpending).1)

theorem view_old (ho : Opened id destination s s') (hi : i ≠ s.made) : s'.view i = s.view i :=
  view_eq (ho.old i hi) (pipe_congr ho.pending i) (by rw [State.putting, ho.reader, State.putting])
    ((ho.mapped i).trans (or_iff_left hi))

/-- There is nothing for a stream before it is made. -/
theorem view_new (ho : Opened id destination s s') (h : DeliveryInv limit s) :
    s'.view s.made = ⟨.newStream id destination, [], [], True⟩ := by
  refine view_eq ho.new ?_ ?_ ((ho.mapped _).trans (iff_of_true (.inr rfl) trivial))
  · rw [pipe_congr ho.pending, State.pipe, List.map_eq_nil_iff, List.filter_eq_nil_iff]
    intro f hf
    simpa using Nat.ne_of_lt (h.frames f hf).1
  · rw [State.putting, ho.reader]
    split
    · rename_i k pos hk
      have hfits := (h.holding k pos hk).2
      cases pos with
      | putting f dest => exact if_neg (Nat.ne_of_lt hfits.2.2)
      | _ => rfl
    · rfl

end Opened

theorem deliveryInv_openStream (h : DeliveryInv limit s) {destination : List UInt8}
    (hcond : Undisturbed limit s (.openStream destination))
    (hinv : MapInv limit (s.openStream limit destination)) :
    DeliveryInv limit (s.openStream limit destination) := by
  cases hfree : s.freeId limit with
  | none =>
      have hs : s.openStream limit destination = { s with lastIdUsed := s.nextId limit } := by
        rw [State.openStream, hfree]
      rw [hs] at hinv ⊢
      exact h.of_views (.same ⟨rfl, fun _ ↦ rfl, rfl⟩) hinv (fun f hf ↦ hf) (fun j ↦ .same rfl id) h.holding
        fun j _ ↦ .quiet (.refl _)
  | some id =>
      have ho : Opened id destination s (s.openStream limit destination) := opened_openStream hfree
      obtain ⟨haccounts, hconsistent⟩ := new_view id destination
      refine ⟨ho.named h hinv hfree (hcond id hfree), ho.holding h, fun j hj ↦ ?_, fun j hj ↦ ?_⟩
      · by_cases hjn : j = s.made
        · rwa [hjn, ho.view_new h]
        · rw [ho.view_old hjn]
          exact h.accounts j (by rw [ho.made] at hj; omega)
      · by_cases hjn : j = s.made
        · rwa [hjn, ho.view_new h]
        · rw [ho.view_old hjn]
          exact h.consistent j (by rw [ho.made] at hj; omega)

theorem modify_id (s : State) (i : ℕ) : s.modify i id = s := by
  simp [State.modify]

theorem fromDevice_modify (g : Stream → Stream) (command : Command) (data : List UInt8) :
    (s.modify i g).fromDevice i command data = (s.modify i g).setIncoming (s.incoming ++
      [⟨i, ⟨command, (g (s.streams i)).deviceId, (g (s.streams i)).localId, data⟩⟩]) := by
  rw [State.fromDevice, streams_modify_self]
  rfl

theorem deliveryInv_step (hlimit : 0 < limit) (h : DeliveryInv limit s) {a : Action}
    (hcond : Undisturbed limit s a) (hstep : step limit s a = some s') : DeliveryInv limit s' := by
  cases stepped hstep with
  | openStream destination =>
      exact deliveryInv_openStream h hcond (mapInv_step hlimit h.toMapInv (mapStep_step hstep))
  | call i call _ hidle hcall => exact deliveryInv_call h hidle hcall hcond
  | run i _ hrun => exact deliveryInv_run h hcond hrun
  | timeout i _ htimeout => exact deliveryInv_timeout h htimeout
  | closed => exact h
  | close i hopened => exact deliveryInv_close h hopened hcond
  | finishClose i hi => exact deliveryInv_finishClose h hi
  | deviceOpens i deviceId hi hasked hne =>
      rw [fromDevice_modify]
      refine h.send hi ⟨by rw [hasked]; exact nofun, by simp, fun _ ↦ ⟨rfl, hne⟩, nofun, nofun, nofun,
        fun _ ↦ hne, .inr hasked, ?_, rfl⟩ rfl
      exact (List.append_nil _).symm
  | deviceAcks i hi hopened =>
      have hne := (h.consistent i hi).opened hopened
      rw [← modify_id s i, fromDevice_modify]
      refine h.send hi ⟨by rw [hopened]; exact nofun, by simp, fun _ ↦ ⟨rfl, hne⟩, nofun, nofun,
        by rw [id, hopened]; exact nofun, fun _ ↦ hne, .inl rfl, ?_, rfl⟩ rfl
      exact (List.append_nil _).symm
  | deviceWrites i data hi hopened =>
      have hne := (h.consistent i hi).opened hopened
      have hstatus : ((s.streams i).deviceWrites data).status ≠ .asked := by
        rw [Stream.deviceWrites, hopened]
        exact nofun
      rw [fromDevice_modify]
      exact h.send hi ⟨by rw [hopened]; exact nofun, by simp, nofun, fun _ ↦ hopened, nofun,
        hstatus, fun _ ↦ hne, .inl rfl, rfl, rfl⟩ rfl
  | deviceCloses i hi hnot =>
      rw [fromDevice_modify]
      refine h.send hi ⟨hnot, by simp, nofun, nofun, fun _ ↦ rfl, nofun, nofun, .inl rfl, ?_, rfl⟩ rfl
      exact (List.append_nil _).symm

theorem deliveryInv_initial : DeliveryInv limit {} where
  toNamed := {
    toMapInv := mapInv_initial
    frames := nofun
    unmade := fun _ _ ↦ ⟨rfl, rfl⟩
    ids := fun _ _ hi ↦ absurd hi.1 (Nat.not_lt_zero _)
    own := fun _ _ _ hj ↦ by cases hj
    closing := nofun }
  holding := nofun
  accounts _ hi := absurd hi (Nat.not_lt_zero _)
  consistent _ hi := absurd hi (Nat.not_lt_zero _)

theorem DeliveryInv.inOrder (h : DeliveryInv limit s) (hi : i < s.made) : InOrder s i := by
  have ha := h.accounts i hi
  have hwrtes : (s.streams i).received <+: (s.streams i).wrtes := by
    refine ⟨(s.streams i).lost ++ payloads (s.pipe i), ?_⟩
    rw [← List.append_assoc]
    exact ha.wrtes.symm
  refine ⟨?_, hwrtes, ha.acks, fun hlookup ↦ (h.consistent i hi).lost (mapped_of_lookup hlookup)⟩
  have hbytes : (s.streams i).returned <+: (s.streams i).received.flatten := by
    refine ⟨(s.streams i).transport.readBuffer.contents ++ (payloads (s.view i).held).flatten, ?_⟩
    rw [← List.append_assoc]
    exact ha.bytes.symm
  obtain ⟨rest, hrest⟩ := hwrtes
  rw [← hrest, List.flatten_append]
  exact hbytes.trans (List.prefix_append _ _)

end Steps

/-- In every run without a disturbance, all payloads are delivered in order. -/
theorem delivers_in_order {limit : ℕ} (hlimit : 0 < limit) (as : List Action) (s : State)
    (hmeets : RunMeets (step limit) (Undisturbed limit) as {})
    (hrun : runActions (step limit) as {} = some s) : ∀ i < s.made, InOrder s i :=
  fun _ hi ↦ (run_invariant (fun _ _ _ h hcond hstep ↦ deliveryInv_step hlimit h hcond hstep)
    deliveryInv_initial hmeets hrun).inOrder hi

/-! ## Runs with two streams -/

section Two

instance (s : State) (i : ℕ) : Decidable (s.Finished i) :=
  inferInstanceAs (Decidable ((s.streams i).status = .closed ∧ s.pipe i = [] ∧
    ¬((s.streams i).pc ≠ .dead ∧ (s.streams i).pc ≠ .idle) ∧ i ∉ s.closing))

instance (s : State) (i : ℕ) : (pos : ReaderPc) → Decidable (s.MayRead i pos)
  | .handling f => inferInstanceAs (Decidable (f.message.command = .WRTE →
      f.message.arg1 = (s.streams i).localId → (s.streams i).lost = []))
  | .enqueuing f dest => inferInstanceAs (Decidable (f.message.command = .WRTE →
      (s.streams dest).transport.remote ≠ none))
  | .locked | .receiving | .forwarding _ _ | .putting _ _ => isTrue trivial

instance (limit : ℕ) (s : State) : (a : Action) → Decidable (Undisturbed limit s a)
  | .openStream _ => inferInstanceAs (Decidable (∀ id ∈ s.freeId limit, ∀ i < s.made,
      (s.streams i).localId = id → s.Finished i))
  | .call i _ | .close i => inferInstanceAs (Decidable (∀ j ∈ s.lookup (s.streams i).localId, j = i))
  | .run i => inferInstanceAs (Decidable (∀ r ∈ s.reader, r.1 = i → s.MayRead i r.2))
  | .timeout _ | .finishClose _ | .deviceOpens _ _ | .deviceAcks _ | .deviceWrites _ _
  | .deviceCloses _ => isTrue trivial

/-- Two streams are opened, the first one while the other one's thread waits. -/
def bothOpened : List Action :=
  [.deviceOpens 1 8] ++ List.replicate 7 (.run 1) ++ [.deviceOpens 0 7] ++ List.replicate 7 (.run 0)

/-- The device writes to the first stream, the other one's thread reads that, and the
first one's returns it. -/
def readByOther : List Action :=
  bothOpened ++ [.deviceWrites 0 [10], .deviceWrites 0 [11], .call 1 (.read 1)] ++
    List.replicate 15 (.run 1) ++ [.timeout 1, .call 0 (.read 2)] ++ List.replicate 9 (.run 0)

theorem delivers_in_order_readByOther :
    ∃ s, runActions (step 3) ([.openStream [], .openStream []] ++ readByOther) {} = some s ∧
      (s.streams 0).returned = [10, 11] ∧ ∀ i < s.made, InOrder s i := by
  have hrun : (runActions (step 3) ([.openStream [], .openStream []] ++ readByOther) {}).any
      (fun s ↦ (s.streams 0).returned = [10, 11]) = true := by
    decide +kernel
  have hmeets : RunMeets (step 3) (Undisturbed 3) ([.openStream [], .openStream []] ++ readByOther) {} := by
    decide +kernel
  obtain ⟨s, hs, hreturned⟩ := (Option.any_eq_true _ _).mp hrun
  exact ⟨s, hs, of_decide_eq_true hreturned, delivers_in_order (by decide) _ s hmeets hs⟩

/-- The thread of the first stream has read the answer to OPEN.  Before it handles
that, the other one's thread reads a WRTE for the first stream; then the first
stream returns the next one. -/
def readBetween : List Action :=
  [.deviceOpens 1 8] ++ List.replicate 7 (.run 1) ++ [.deviceOpens 0 7] ++ List.replicate 6 (.run 0) ++
    [.deviceWrites 0 [10], .call 1 (.read 1)] ++ List.replicate 9 (.run 1) ++
    [.run 0, .deviceWrites 0 [11], .call 0 (.read 1)] ++ List.replicate 9 (.run 0)

theorem not_inOrder {limit : ℕ} (hlimit : 3 ≤ limit) :
    ∃ s, runActions (step limit) ([.openStream [], .openStream []] ++ readBetween) {} = some s ∧
      (s.streams 0).wrtes = [[10], [11]] ∧ (s.streams 0).returned = [11] := by
  have hrun : (runActions (step 3) readBetween twoStreams).any (fun s ↦
      (s.streams 0).wrtes = [[10], [11]] ∧ (s.streams 0).returned = [11]) = true := by
    decide +kernel
  obtain ⟨s, hs, hafter⟩ := (Option.any_eq_true _ _).mp hrun
  refine ⟨s, ?_, of_decide_eq_true hafter⟩
  rw [runActions_append, twoStreams_opened hlimit, Option.bind_some, ← hs]
  exact runActions_eq_of_ne_openStream (by simp [readBetween])

/-- The bytes of the first WRTE are not returned, but those of the second one are. -/
theorem not_inOrder_readBetween :
    ∃ s, runActions (step (2 ^ 16)) ([.openStream [], .openStream []] ++ readBetween) {} = some s ∧
      ¬InOrder s 0 := by
  obtain ⟨s, hs, hwrtes, hreturned⟩ := @not_inOrder (2 ^ 16) (by decide)
  refine ⟨s, hs, fun h ↦ ?_⟩
  have horder := h.returned
  rw [hwrtes, hreturned] at horder
  revert horder
  decide

end Two

end OpenHtf.Adb
