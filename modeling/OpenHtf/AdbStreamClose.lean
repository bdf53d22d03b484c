import OpenHtf.AdbStreamIds

/-!
# Closing one ADB stream

`close_stream_transport` knows a stream by its local id only.  It removes the
right entry as long as no id is given to a new stream while somebody may still
read or close the old one.
-/

set_option autoImplicit false

namespace OpenHtf.Adb

/-! ## Removals -/

/-- Every entry that `close_stream_transport` has removed from the map held the
transport that it was called with. -/
def ClosesOnlyItself (s : State) : Prop := ∀ r ∈ s.removals, r.2 = r.1

/-! ## The condition -/

namespace Stream

def InCall (x : Stream) : Prop := x.pc ≠ .dead ∧ x.pc ≠ .idle

/-- Its thread is in a call, or its `close` would not return at once. -/
def Usable (x : Stream) : Prop :=
  x.isOpened = true ∧ x.transport.closedState ≠ .CLOSED ∨ x.InCall

end Stream

namespace State

/-- The stream that the holder of the lock has found for a message. -/
def dest (s : State) : Option ℕ :=
  match s.reader with
  | some (_, .forwarding _ dest) => some dest
  | _ => none

/-- Somebody may still read or close the stream. -/
def Live (s : State) (i : ℕ) : Prop := (s.streams i).Usable ∨ i ∈ s.closing ∨ s.dest = some i

end State

/-- No stream gets the id of one that may still be read or closed, and no stream is
read when it is closed and another one has got its id. -/
def NotReused (limit : ℕ) (s : State) : Action → Prop
  | .openStream _ => ∀ id, s.freeId limit = some id → ∀ i, (s.streams i).localId = id → ¬s.Live i
  | .call i _ => (s.streams i).transport.closedState = .CLOSED →
      ∀ j, s.lookup (s.streams i).localId = some j → j = i
  | _ => True

/-! ## What a step can bring to life -/

/-- Of the streams other than `t` none becomes usable, and no close begins. -/
structure Tame (t : ℕ) (s s' : State) : Prop where
  usable : ∀ i, i ≠ t → (s'.streams i).Usable → (s.streams i).Usable
  closing : ∀ i ∈ s'.closing, i ∈ s.closing

namespace Tame

variable {t : ℕ} {s s' : State}

theorem refl (s : State) : Tame t s s := ⟨fun _ _ h ↦ h, fun _ h ↦ h⟩

/-- The thread of the stream changes it. -/
theorem modify (h : Tame t s s') (f : Stream → Stream) : Tame t s (s'.modify t f) where
  usable i hi hu := h.usable i hi (by simpa [State.modify, hi] using hu)
  closing := h.closing

/-- Another stream is changed in a way that makes nothing usable. -/
theorem modifyOther (h : Tame t s s') {i : ℕ} {f : Stream → Stream}
    (hf : (f (s'.streams i)).Usable → (s'.streams i).Usable) : Tame t s (s'.modify i f) where
  usable n hn hu := by
    refine h.usable n hn ?_
    by_cases hni : n = i
    · subst hni
      exact hf (by simpa [State.modify] using hu)
    · simpa [State.modify, hni] using hu
  closing := h.closing

theorem setReader (h : Tame t s s') (r : Option (ℕ × ReaderPc)) : Tame t s (s'.setReader r) :=
  ⟨h.usable, h.closing⟩

theorem setIncoming (h : Tame t s s') (frames : List Frame) : Tame t s (s'.setIncoming frames) :=
  ⟨h.usable, h.closing⟩

theorem removeEntry (h : Tame t s s') (id i j : ℕ) : Tame t s (s'.removeEntry id i j) :=
  ⟨h.usable, h.closing⟩

end Tame

theorem StreamTransport.closedState_setOrCheckRemoteId {t t' : StreamTransport} {id : ℕ}
    (h : t.setOrCheckRemoteId id = .ok t') (hclosed : t.closedState = .CLOSED) :
    t'.closedState = .CLOSED := by
  unfold setOrCheckRemoteId at h
  split at h
  · split at h
    · rename_i hpending
      rw [hclosed] at hpending
      cases hpending
    · cases h
  · split at h
    · rw [← Except.ok.inj h]
      exact hclosed
    · cases h

theorem StreamTransport.closedState_acknowledge {t t' : StreamTransport} {m : AdbMessage}
    {out : List AdbMessage} (h : t.acknowledge m = .ok (out, t')) (hclosed : t.closedState = .CLOSED) :
    t'.closedState = .CLOSED := by
  obtain rfl | hset := acknowledge_cases h
  · exact hclosed
  · exact closedState_setOrCheckRemoteId hset hclosed

namespace Stream

variable {x : Stream}

theorem usable_sendClse (h : x.sendClse.Usable) : x.Usable := by
  unfold sendClse at h
  split at h
  · exact h
  · exact h

theorem usable_accept {m : AdbMessage} {out : List AdbMessage} {t : StreamTransport}
    (hack : x.transport.acknowledge m = .ok (out, t)) (h : (x.accept m out t).Usable) : x.Usable := by
  rcases h with ⟨hopened, hopen⟩ | h
  · exact .inl ⟨hopened, fun hclosed ↦ hopen (StreamTransport.closedState_acknowledge hack hclosed)⟩
  · exact .inr h

end Stream

section Steps

variable {limit : ℕ} {s s' : State}

theorem tame_closeStreamTransport (t i : ℕ) : Tame t s (s.closeStreamTransport i) := by
  unfold State.closeStreamTransport
  split
  · exact .refl s
  · exact ((Tame.refl s).removeEntry _ i _).modifyOther Stream.usable_sendClse

/-- What the thread of a stream does in a step: it may find the stream of a message
in the map, and close its own stream or the one that it has found. -/
structure ThreadStep (t : ℕ) (s s' : State) : Prop where
  tame : Tame t s s'
  dest : ∀ d, s'.dest = some d → s.dest = some d ∨ ∃ id, s.lookup id = some d
  removals : s'.removals = s.removals ∨ ∃ i j, (i = t ∨ s.dest = some i) ∧
    s.lookup (s.streams i).localId = some j ∧ s'.removals = s.removals ++ [(i, j)]

theorem removals_closeStreamTransport (i : ℕ) :
    (s.closeStreamTransport i).removals = s.removals ∨ ∃ j,
      s.lookup (s.streams i).localId = some j ∧
        (s.closeStreamTransport i).removals = s.removals ++ [(i, j)] := by
  unfold State.closeStreamTransport
  split
  · exact .inl rfl
  · rename_i j hj
    exact .inr ⟨j, hj, rfl⟩

theorem threadStep_handleOwn (i : ℕ) (call : Call) (f : Frame) :
    ThreadStep i s (s.handleOwn i call f) := by
  have hs := Tame.refl (t := i) s
  unfold State.handleOwn
  dsimp only
  split
  · split
    · exact ⟨((hs.modifyOther (by exact fun h ↦ h)).modify _).setReader none, nofun, .inl rfl⟩
    · exact ⟨((hs.modify _).modify _).setReader none, nofun, .inl rfl⟩
  · refine ⟨((tame_closeStreamTransport i i).modify _).setReader none, nofun, ?_⟩
    exact (removals_closeStreamTransport i).imp_right fun ⟨j, hj, hr⟩ ↦ ⟨i, j, .inl rfl, hj, hr⟩
  · exact ⟨(hs.modify _).setReader none, nofun, .inl rfl⟩

theorem threadStep_readerStep {i : ℕ} {call : Call} {pos : ReaderPc} (hreader : s.reader = some (i, pos))
    (h : ReaderStepped i call s pos s') : ThreadStep i s s' := by
  have hs := Tame.refl (t := i) s
  cases h with
  | pops | unexpected => exact ⟨(hs.modify _).setReader none, nofun, .inl rfl⟩
  | receives | keepsOpen => exact ⟨hs.setReader _, nofun, .inl rfl⟩
  | reads => exact ⟨(hs.setIncoming _).setReader _, nofun, .inl rfl⟩
  | own f => exact threadStep_handleOwn i call f
  | forwards f dest _ hlookup =>
      have hfound : ∃ id, s.lookup id = some dest := ⟨_, hlookup⟩
      refine ⟨hs.setReader _, fun d hd ↦ .inr ?_, .inl rfl⟩
      obtain rfl : dest = d := Option.some.inj hd
      exact hfound
  | drops | puts => exact ⟨(hs.modifyOther (by exact fun h ↦ h)).setReader _, nofun, .inl rfl⟩
  | closes f dest =>
      have hdest : s.dest = some dest := by rw [State.dest, hreader]
      refine ⟨(tame_closeStreamTransport i dest).setReader _, nofun, ?_⟩
      exact (removals_closeStreamTransport dest).imp_right fun ⟨j, hj, hr⟩ ↦ ⟨dest, j, .inr hdest, hj, hr⟩
  | fails => exact ⟨((hs.modifyOther (by exact fun h ↦ h)).modify _).setReader none, nofun, .inl rfl⟩
  | acknowledges f dest out t hack =>
      exact ⟨(hs.modifyOther (Stream.usable_accept hack)).setReader _, nofun, .inl rfl⟩

/-- A step that only changes the stream of the thread. -/
theorem threadStep_modify (i : ℕ) (f : Stream → Stream) : ThreadStep i s (s.modify i f) :=
  ⟨(Tame.refl s).modify f, fun _ h ↦ .inl h, .inl rfl⟩

theorem threadStep_run {i : ℕ} (h : s.run i = some s') : ThreadStep i s s' := by
  cases runStepped h with
  | found | notFound | busy | alone => exact threadStep_modify i _
  | locks => exact ⟨((Tame.refl s).modify _).setReader _, nofun, .inl rfl⟩
  | reads call pos _ _ hreader h => exact threadStep_readerStep hreader h

theorem threadStep_timeout {i : ℕ} (h : s.timeout i = some s') : ThreadStep i s s' := by
  cases timedOut h with
  | outside => exact threadStep_modify i _
  | inside => exact ⟨((Tame.refl s).modify _).setReader none, nofun, .inl rfl⟩

/-- A thread that takes a step is in a call. -/
theorem inCall_of_run {i : ℕ} (h : s.run i = some s') : (s.streams i).InCall := by
  unfold State.run at h
  constructor
  · intro hpc
    simp [hpc, Stream.next] at h
  · intro hpc
    simp [hpc, Stream.next] at h

theorem inCall_of_timeout {i : ℕ} (h : s.timeout i = some s') : (s.streams i).InCall := by
  unfold State.timeout at h
  constructor
  · intro hpc
    simp [hpc] at h
  · intro hpc
    simp [hpc] at h

end Steps

/-! ## The invariant -/

/-- What the map has under the id of a stream that is still in use is the stream
itself. -/
structure CloseInv (limit : ℕ) (s : State) : Prop extends MapInv limit s where
  own : ∀ i, s.Live i → ∀ j, s.lookup (s.streams i).localId = some j → j = i
  removals : ClosesOnlyItself s

section Invariant

variable {limit : ℕ} {s s' : State}

theorem closeInv_initial : CloseInv limit {} where
  toMapInv := mapInv_initial
  own _ _ _ h := by cases h
  removals _ h := by cases h

/-- The id of an entry is the local id of its transport. -/
theorem MapInv.localId_of_lookup (h : MapInv limit s) {id n : ℕ} (hn : s.lookup id = some n) :
    (s.streams n).localId = id := h.localId id n (mem_of_lookup hn)

/-- A step in which nothing comes to life but streams that are in the map. -/
theorem CloseInv.own_of_erases (h : CloseInv limit s) (hmap : MapErases s s')
    (hlive : ∀ i, s'.Live i → s.Live i ∨ s.lookup (s.streams i).localId = some i) (i : ℕ)
    (hi : s'.Live i) (j : ℕ) (hj : s'.lookup (s'.streams i).localId = some j) : j = i := by
  rw [hmap.localId i] at hj
  have hold := hmap.lookup hj
  rcases hlive i hi with hi | hi
  · exact h.own i hi j hold
  · exact Option.some.inj (hold.symm.trans hi)

theorem closeInv_threadStep (h : CloseInv limit s) {t : ℕ} (hcall : (s.streams t).InCall)
    (hstep : ThreadStep t s s') (hmap : MapErases s s') (hinv : MapInv limit s') :
    CloseInv limit s' where
  toMapInv := hinv
  own := by
    refine h.own_of_erases hmap fun i hi ↦ ?_
    rcases hi with hi | hi | hi
    · by_cases hit : i = t
      · subst hit
        exact .inl (.inl (.inr hcall))
      · exact .inl (.inl (hstep.tame.usable i hit hi))
    · exact .inl (.inr (.inl (hstep.tame.closing i hi)))
    · rcases hstep.dest i hi with hi | ⟨id, hid⟩
      · exact .inl (.inr (.inr hi))
      · rw [h.localId_of_lookup hid]
        exact .inr hid
  removals := by
    rcases hstep.removals with hr | ⟨i, j, hi, hj, hr⟩
    · rw [ClosesOnlyItself, hr]
      exact h.removals
    · have hlive : s.Live i := by
        rcases hi with rfl | hi
        · exact .inl (.inr hcall)
        · exact .inr (.inr hi)
      rw [ClosesOnlyItself, hr]
      intro r hmem
      rcases List.mem_append.mp hmem with hmem | hmem
      · exact h.removals r hmem
      · obtain rfl := List.mem_singleton.mp hmem
        exact h.own i hlive j hj

theorem closeInv_openStream (h : CloseInv limit s) {destination : List UInt8}
    (hcond : NotReused limit s (.openStream destination))
    (hinv : MapInv limit (s.openStream limit destination)) :
    CloseInv limit (s.openStream limit destination) := by
  refine ⟨hinv, ?_, ?_⟩
  · intro i hi j hj
    cases hid : s.freeId limit with
    | none =>
        simp only [State.openStream, hid] at hi hj
        exact h.own i hi j hj
    | some id =>
        simp only [State.openStream, hid] at hi hj
        rw [State.lookup, lookup_dictSet] at hj
        by_cases hmade : i = s.made
        · subst hmade
          rw [Function.update_self, if_pos (by rfl)] at hj
          exact (Option.some.inj hj).symm
        · have hlive : s.Live i := by
            rcases hi with hi | hi
            · exact .inl (by simpa [hmade] using hi)
            · exact .inr hi
          rw [Function.update_of_ne hmade] at hj
          split at hj
          · exact absurd hlive (hcond id hid i ‹_›)
          · exact h.own i hlive j hj
  · unfold State.openStream
    split
    · exact h.removals
    · exact h.removals

theorem closeInv_call (h : CloseInv limit s) {i : ℕ} {call : Call}
    (hcond : NotReused limit s (.call i call)) (hopened : (s.streams i).isOpened = true)
    (hinv : MapInv limit (s.modify i (Stream.start call))) :
    CloseInv limit (s.modify i (Stream.start call)) where
  toMapInv := hinv
  own n hn j hj := by
    have hmap : MapErases s (s.modify i (Stream.start call)) :=
      .same ((SameMap.refl s).modify (by simp))
    rw [hmap.localId n] at hj
    have hold := hmap.lookup hj
    by_cases hni : n = i
    · subst hni
      by_cases hclosed : (s.streams n).transport.closedState = .CLOSED
      · exact hcond hclosed j hold
      · exact h.own n (.inl (.inl ⟨hopened, hclosed⟩)) j hold
    · refine h.own n ?_ j hold
      rcases hn with hn | hn
      · exact .inl (by simpa [State.modify, hni] using hn)
      · exact .inr hn
  removals := h.removals

theorem closeInv_close (h : CloseInv limit s) {i : ℕ} (hopened : (s.streams i).isOpened = true)
    (hclosed : (s.streams i).transport.closedState ≠ .CLOSED)
    (hinv : MapInv limit ((s.modify i Stream.markClosed).setClosing (i :: s.closing))) :
    CloseInv limit ((s.modify i Stream.markClosed).setClosing (i :: s.closing)) where
  toMapInv := hinv
  own := by
    have hlive : s.Live i := .inl (.inl ⟨hopened, hclosed⟩)
    refine h.own_of_erases (.same (((SameMap.refl s).modify (by rfl)).setClosing _)) fun n hn ↦ .inl ?_
    by_cases hni : n = i
    · rwa [hni]
    · rcases hn with hn | hn | hn
      · exact .inl (by simpa [State.setClosing, State.modify, hni] using hn)
      · exact .inr (.inl (List.mem_of_ne_of_mem hni hn))
      · exact .inr (.inr hn)
  removals := h.removals

theorem closeInv_finishClose (h : CloseInv limit s) {i : ℕ} (hi : i ∈ s.closing)
    (hinv : MapInv limit ((s.closeStreamTransport i).setClosing (s.closing.erase i))) :
    CloseInv limit ((s.closeStreamTransport i).setClosing (s.closing.erase i)) where
  toMapInv := hinv
  own := by
    refine h.own_of_erases (mapErases_close fun t ht ↦ ht.setClosing _) fun n hn ↦ .inl ?_
    have htame := tame_closeStreamTransport (s := s) (n + 1) i
    have hdest : (s.closeStreamTransport i).dest = s.dest := by
      unfold State.closeStreamTransport
      split <;> rfl
    rcases hn with hn | hn | hn
    · exact .inl (htame.usable n (by omega) hn)
    · exact .inr (.inl (List.mem_of_mem_erase hn))
    · exact .inr (.inr (hdest ▸ hn))
  removals := by
    rcases removals_closeStreamTransport (s := s) i with hr | ⟨j, hj, hr⟩
    · intro r hmem
      exact h.removals r (hr ▸ hmem)
    · intro r hmem
      rcases List.mem_append.mp (hr ▸ hmem) with hmem | hmem
      · exact h.removals r hmem
      · obtain rfl := List.mem_singleton.mp hmem
        exact h.own i (.inr (.inl hi)) j hj

/-- What the device does. -/
theorem closeInv_device (h : CloseInv limit s) {i : ℕ} {f : Stream → Stream} {frames : List Frame}
    (hid : (f (s.streams i)).localId = (s.streams i).localId)
    (hf : (f (s.streams i)).Usable → (s.streams i).Usable)
    (hinv : MapInv limit ((s.modify i f).setIncoming frames)) :
    CloseInv limit ((s.modify i f).setIncoming frames) where
  toMapInv := hinv
  own := by
    refine h.own_of_erases (.same (((SameMap.refl s).modify hid).setIncoming _)) fun n hn ↦ .inl ?_
    have htame := (Tame.refl (t := n + 1) s).modifyOther hf
    rcases hn with hn | hn
    · exact .inl (htame.usable n (by omega) hn)
    · exact .inr hn
  removals := h.removals

theorem closeInv_step (hlimit : 0 < limit) (h : CloseInv limit s) {a : Action}
    (hcond : NotReused limit s a) (hstep : step limit s a = some s') : CloseInv limit s' := by
  have hinv : MapInv limit s' := mapInv_step hlimit h.toMapInv (mapStep_step hstep)
  cases stepped hstep with
  | openStream destination => exact closeInv_openStream h hcond hinv
  | call i call hopened => exact closeInv_call h hcond hopened hinv
  | run i _ hrun => exact closeInv_threadStep h (inCall_of_run hrun) (threadStep_run hrun) (mapErases_run hrun) hinv
  | timeout i _ htimeout =>
      exact closeInv_threadStep h (inCall_of_timeout htimeout) (threadStep_timeout htimeout)
        (mapErases_timeout htimeout) hinv
  | closed => exact h
  | close i hopened hopen => exact closeInv_close h hopened hopen hinv
  | finishClose i hi => exact closeInv_finishClose h hi hinv
  | deviceAcks => exact ⟨hinv, h.own, h.removals⟩
  | deviceOpens | deviceWrites | deviceCloses => exact closeInv_device h (by rfl) (fun hu ↦ hu) hinv

/-- In every run in which no stream gets the id of one that may still be used,
`close_stream_transport` removes the entry of its own transport only. -/
theorem closes_only_itself (hlimit : 0 < limit) (as : List Action) (s : State)
    (hmeets : RunMeets (step limit) (NotReused limit) as {})
    (hrun : runActions (step limit) as {} = some s) : ClosesOnlyItself s :=
  (run_invariant (fun _ _ _ h hcond hstep ↦ closeInv_step hlimit h hcond hstep) closeInv_initial
    hmeets hrun).removals

end Invariant

/-- A stream is opened and refused by the device. -/
def refused (n : ℕ) : List Action := [.openStream [], .deviceCloses n] ++ List.replicate 7 (.run n)

/-- The id of the refused stream is given again. -/
theorem closes_only_itself_refused :
    ∃ s, runActions (step 2) (refused 0 ++ [.openStream []]) {} = some s ∧ s.removals = [(0, 0)] ∧
      ClosesOnlyItself s := by
  obtain ⟨s, hs, hr⟩ : ∃ s, runActions (step 2) (refused 0 ++ [.openStream []]) {} = some s ∧
      s.removals = [(0, 0)] := ⟨_, rfl, rfl⟩
  refine ⟨s, hs, hr, closes_only_itself (by decide) _ s (runMeets_append ?_ ?_) hs⟩
  · refine ⟨fun id hid i hi ↦ ?_, fun s₁ hs₁ ↦ ?_⟩
    · intro hlive
      simp [State.Live, State.dest, Stream.Usable, Stream.InCall] at hlive
    · obtain rfl := Option.some.inj hs₁
      exact runMeets_of_forall (by simp [NotReused]) _
  · intro s₁ hs₁
    obtain rfl := Option.some.inj hs₁
    refine ⟨fun id hid i hi hlive ↦ ?_, fun _ _ ↦ trivial⟩
    rcases hlive with (⟨hopened, -⟩ | ⟨hdead, hidle⟩) | hclosing | hdest
    · cases i <;> exact Bool.noConfusion hopened
    · cases i <;> exact hdead rfl
    · cases hclosing
    · cases hdest

/-! ## The defect -/

section Defect

/-- Two streams are opened.  The device closes the first one, and the thread of the
second one handles the CLSE and puts it into the queue of the first one. -/
def closedByOther : List Action :=
  [.deviceOpens 0 7] ++ List.replicate 7 (.run 0) ++ [.deviceOpens 1 8] ++ List.replicate 7 (.run 1) ++
    [.deviceCloses 0, .call 1 (.read 1)] ++ List.replicate 10 (.run 1) ++ [.timeout 1]

/-- All the other ids are used up, the id of the first stream is given again, and
then its owner closes it. -/
def reusedId (limit : ℕ) : List Action :=
  ([.openStream [], .openStream []] ++ closedByOther) ++
    (List.range (limit - 3)).flatMap (fun k ↦ refused (k + 2)) ++
    [.openStream [], .close 0, .finishClose 0]

variable {limit n : ℕ} {s : State}

theorem freeId_of_next (hn : s.nextId limit < limit)
    (hfree : s.nextId limit ∉ s.streamTransportMap.map Prod.fst) :
    s.freeId limit = some (s.nextId limit) := by
  obtain ⟨k, hk⟩ : ∃ k, limit - s.nextId limit = k + 1 := ⟨limit - s.nextId limit - 1, by omega⟩
  have hcons : candidates limit (s.nextId limit) = s.nextId limit ::
      ((List.range' (s.nextId limit + 1) k ++ List.range' 1 (s.nextId limit - 1)).take 63) := by
    rw [candidates, hk]
    rfl
  rw [State.freeId, hcons, List.find?_cons_of_pos]
  simpa using hfree

theorem freeId_of_last (hlimit : 2 ≤ limit) (hlast : s.lastIdUsed = limit - 1)
    (hfree : 1 ∉ s.streamTransportMap.map Prod.fst) : s.freeId limit = some 1 := by
  obtain ⟨k, rfl⟩ : ∃ k, limit = k + 2 := ⟨limit - 2, by omega⟩
  have hnext : s.nextId (k + 2) = k + 2 := by
    rw [State.nextId, hlast, Nat.mod_eq_of_lt (by omega)]
    omega
  have hcons : candidates (k + 2) (k + 2) = 1 :: (List.range' 2 k).take 63 := by
    rw [candidates, Nat.sub_self]
    rfl
  rw [State.freeId, hnext, hcons, List.find?_cons_of_pos]
  simpa using hfree

/-- The first stream is closed by the other one's thread and has not noticed, and
no id but that of the other one is in use. -/
structure Unnoticed (n : ℕ) (s : State) : Prop where
  made : s.made = n
  map : s.streamTransportMap = [(2, 1)]
  lastIdUsed : s.lastIdUsed = n
  reader : s.reader = none
  closing : s.closing = []
  incoming : s.incoming = []
  isOpened : (s.streams 0).isOpened = true
  closedState : (s.streams 0).transport.closedState = .OPEN
  localId : (s.streams 0).transport.localId = 1

instance : Decidable (Unnoticed n s) :=
  decidable_of_iff (s.made = n ∧ s.streamTransportMap = [(2, 1)] ∧ s.lastIdUsed = n ∧ s.reader = none ∧
      s.closing = [] ∧ s.incoming = [] ∧ (s.streams 0).isOpened = true ∧
      (s.streams 0).transport.closedState = .OPEN ∧ (s.streams 0).transport.localId = 1)
    ⟨fun ⟨h₁, h₂, h₃, h₄, h₅, h₆, h₇, h₈, h₉⟩ ↦ ⟨h₁, h₂, h₃, h₄, h₅, h₆, h₇, h₈, h₉⟩,
      fun ⟨h₁, h₂, h₃, h₄, h₅, h₆, h₇, h₈, h₉⟩ ↦ ⟨h₁, h₂, h₃, h₄, h₅, h₆, h₇, h₈, h₉⟩⟩

def twoStreams : State where
  streams := Function.update (Function.update ({} : State).streams 0 (Stream.newStream 1 [])) 1
    (Stream.newStream 2 [])
  made := 2
  streamTransportMap := [(1, 0), (2, 1)]
  lastIdUsed := 2

theorem twoStreams_opened (hlimit : 3 ≤ limit) :
    runActions (step limit) [.openStream [], .openStream []] {} = some twoStreams := by
  have hfirst : ({} : State).freeId limit = some 1 := by
    have hnext : ({} : State).nextId limit = 1 := by simp [State.nextId]
    rw [freeId_of_next, hnext]
    · omega
    · simp
  let t : State := {
    streams := Function.update ({} : State).streams 0 (Stream.newStream 1 [])
    made := 1
    streamTransportMap := [(1, 0)]
    lastIdUsed := 1 }
  have hsecond : t.freeId limit = some 2 := by
    have hnext : t.nextId limit = 2 := by
      rw [State.nextId, Nat.mod_eq_of_lt (show t.lastIdUsed < limit from by simp only [t]; omega)]
    rw [freeId_of_next, hnext]
    · omega
    · simp [hnext, t]
  have hopen : step limit {} (.openStream []) = some t := by
    simp only [step, State.openStream, hfirst]
    rfl
  have hopen' : step limit t (.openStream []) = some twoStreams := by
    simp only [step, State.openStream, hsecond]
    rfl
  simp only [runActions, hopen, hopen', Option.bind_some]

/-- Only opening a stream looks at the limit. -/
theorem step_eq_of_ne_openStream {limit' : ℕ} {a : Action} (h : ∀ destination, a ≠ .openStream destination) :
    step limit s a = step limit' s a := by
  cases a with
  | openStream destination => exact absurd rfl (h destination)
  | _ => rfl

theorem runActions_eq_of_ne_openStream {limit' : ℕ} {as : List Action}
    (h : ∀ a ∈ as, ∀ destination, a ≠ .openStream destination) :
    runActions (step limit) as s = runActions (step limit') as s := by
  induction as generalizing s with
  | nil => rfl
  | cons a as ih =>
      have hstep : step limit s a = step limit' s a := step_eq_of_ne_openStream (h a (by simp))
      rw [runActions, runActions, hstep]
      exact Option.bind_congr fun t _ ↦ ih (fun b hb ↦ h b (List.mem_cons_of_mem a hb))

theorem unnoticed_closedByOther (hlimit : 3 ≤ limit) :
    ∃ s, runActions (step limit) ([.openStream [], .openStream []] ++ closedByOther) {} = some s ∧
      Unnoticed 2 s := by
  have hrun : (runActions (step 3) closedByOther twoStreams).any (Unnoticed 2 ·) = true := by
    decide +kernel
  obtain ⟨s, hs, hafter⟩ := Option.any_eq_true _ _ |>.mp hrun
  refine ⟨s, ?_, of_decide_eq_true hafter⟩
  rw [runActions_append, twoStreams_opened hlimit, Option.bind_some, ← hs]
  exact runActions_eq_of_ne_openStream (by simp [closedByOther])

/-- A stream that the device has refused, and whose thread does not know it yet. -/
def refusedStream (id : ℕ) (pc : Pc) : Stream :=
  { Stream.newStream id [] with status := .closed, pc := pc }

/-- The CLSE of the device. -/
def refusal (n id : ℕ) : Frame := ⟨n, ⟨.CLSE, 0, id, []⟩⟩

/-- The thread of the refused stream is on its way to the CLSE. -/
def State.refusing (s : State) (n id : ℕ) (pc : Pc) (r : Option (ℕ × ReaderPc)) (frames : List Frame) :
    State :=
  { s with streams := Function.update s.streams n (refusedStream id pc), reader := r, incoming := frames }

section Refusal

variable {id : ℕ}

theorem streams_refusing (pc : Pc) (r : Option (ℕ × ReaderPc)) (frames : List Frame) :
    (s.refusing n id pc r frames).streams n = refusedStream id pc := Function.update_self ..

theorem modify_refusing (pc : Pc) (r : Option (ℕ × ReaderPc)) (frames : List Frame) (f : Stream → Stream) :
    (s.refusing n id pc r frames).modify n f =
      { s.refusing n id pc r frames with streams := Function.update s.streams n (f (refusedStream id pc)) } := by
  rw [State.modify, streams_refusing]
  simp only [State.refusing, Function.update_idem]

theorem deviceCloses_refusing (hn : n < s.made) (hstream : s.streams n = Stream.newStream id [])
    (hreader : s.reader = none) (hincoming : s.incoming = []) :
    step limit s (.deviceCloses n) =
      some (s.refusing n id (.polling .ensureOpened) none [refusal n id]) := by
  have hasked : (s.streams n).status ≠ .closed := by
    rw [hstream]
    exact nofun
  rw [step, if_pos ⟨hn, hasked⟩, State.fromDevice, State.modify, hstream]
  simp only [Function.update_self, hincoming, List.nil_append]
  rw [State.refusing, ← hreader]
  rfl

theorem run_refusing_inside (pos : ReaderPc) (frames : List Frame) :
    (s.refusing n id (.inside .ensureOpened) (some (n, pos)) frames).run n =
      (s.refusing n id (.inside .ensureOpened) (some (n, pos)) frames).readerStep n .ensureOpened pos := by
  simp only [State.run, streams_refusing]
  exact if_pos rfl

/-- The thread gets the lock and reads the CLSE. -/
theorem runs_refusing (hlookup : s.lookup id = some n) :
    runActions (step limit) (List.replicate 5 (.run n))
        (s.refusing n id (.polling .ensureOpened) none [refusal n id]) =
      some (s.refusing n id (.inside .ensureOpened) (some (n, .handling (refusal n id))) []) := by
  have hpolls : (s.refusing n id (.polling .ensureOpened) none [refusal n id]).run n =
      some (s.refusing n id (.waiting .ensureOpened) none [refusal n id]) := by
    have hmapped : (s.refusing n id (.polling .ensureOpened) none [refusal n id]).lookup
        (refusedStream id (.polling .ensureOpened)).localId = some n := hlookup
    simp only [State.run, streams_refusing, hmapped, modify_refusing]
    rfl
  have hwaits : (s.refusing n id (.waiting .ensureOpened) none [refusal n id]).run n =
      some (s.refusing n id (.locking .ensureOpened) none [refusal n id]) := by
    simp only [State.run, streams_refusing, modify_refusing]
    rfl
  have hlocks : (s.refusing n id (.locking .ensureOpened) none [refusal n id]).run n =
      some (s.refusing n id (.inside .ensureOpened) (some (n, .locked)) [refusal n id]) := by
    simp only [State.run, streams_refusing, modify_refusing]
    rfl
  have hlooks : (s.refusing n id (.inside .ensureOpened) (some (n, .locked)) [refusal n id]).run n =
      some (s.refusing n id (.inside .ensureOpened) (some (n, .receiving)) [refusal n id]) := by
    rw [run_refusing_inside]
    simp only [State.readerStep, streams_refusing]
    rfl
  have hreceives : (s.refusing n id (.inside .ensureOpened) (some (n, .receiving)) [refusal n id]).run n =
      some (s.refusing n id (.inside .ensureOpened) (some (n, .handling (refusal n id))) []) := by
    rw [run_refusing_inside]
    rfl
  simp only [List.replicate, runActions, step, hpolls, hwaits, hlocks, hlooks, hreceives, Option.bind_some]

/-- CLSE is not sent: the stream never got a remote id. -/
theorem close_refusing (hlookup : s.lookup id = some n) (pc : Pc) (r : Option (ℕ × ReaderPc))
    (frames : List Frame) :
    (s.refusing n id pc r frames).closeStreamTransport n =
      (s.removeEntry id n n).refusing n id pc r frames := by
  have hmapped : (s.refusing n id pc r frames).lookup (refusedStream id pc).localId = some n := hlookup
  have herase : (s.refusing n id pc r frames).removeEntry (refusedStream id pc).localId n n =
      (s.removeEntry id n n).refusing n id pc r frames := rfl
  simp only [State.closeStreamTransport, streams_refusing, hmapped, herase, modify_refusing]
  rfl

/-- The thread removes its own entry and dies. -/
theorem runs_refused (hlookup : s.lookup id = some n) :
    runActions (step limit) (List.replicate 2 (.run n))
        (s.refusing n id (.inside .ensureOpened) (some (n, .handling (refusal n id))) []) =
      some (((s.removeEntry id n n).refusing n id .dead none []).modify n Stream.markClosed) := by
  have hhandles : (s.refusing n id (.inside .ensureOpened) (some (n, .handling (refusal n id))) []).run n =
      some ((s.removeEntry id n n).refusing n id (.got .ensureOpened (refusal n id).message) none []) := by
    have hown : (refusal n id).message.arg1 = (refusedStream id (.inside .ensureOpened)).localId := rfl
    have hknown : ¬(refusal n id).message.command ∉ [Command.OKAY, .CLSE, .WRTE] := by simp [refusal]
    rw [run_refusing_inside, State.readerStep, if_neg hknown, streams_refusing, if_pos hown]
    simp only [State.handleOwn, refusal, close_refusing hlookup, modify_refusing]
    rfl
  have hdies : ((s.removeEntry id n n).refusing n id (.got .ensureOpened (refusal n id).message)
      none []).run n = some (((s.removeEntry id n n).refusing n id .dead none []).modify n
        Stream.markClosed) := by
    simp only [State.run, streams_refusing, modify_refusing]
    rfl
  simp only [List.replicate, runActions, step, hhandles, hdies, Option.bind_some]

end Refusal

theorem unnoticed_refused (h : Unnoticed n s) (hn : 2 ≤ n) (hlimit : n + 1 < limit) :
    ∃ s', runActions (step limit) (refused n) s = some s' ∧ Unnoticed (n + 1) s' := by
  obtain ⟨hmade, hmap, hlast, hreader, hclosing, hincoming, hopened, hopen, hid⟩ := h
  have hkey : n + 1 ∉ s.streamTransportMap.map Prod.fst := by
    rw [hmap]
    simp
    omega
  have hfree : s.freeId limit = some (n + 1) := by
    have hnext : s.nextId limit = n + 1 := by
      rw [State.nextId, hlast, Nat.mod_eq_of_lt (by omega)]
    rw [freeId_of_next (hnext ▸ hlimit) (hnext ▸ hkey), hnext]
  let t : State := { s with
    streams := Function.update s.streams n (Stream.newStream (n + 1) [])
    made := n + 1
    streamTransportMap := [(2, 1), (n + 1, n)]
    lastIdUsed := n + 1 }
  have hopens : step limit s (.openStream []) = some t := by
    simp only [step, State.openStream, hfree, hmade]
    rw [dictSet_of_not_mem hkey, hmap]
    rfl
  have hcloses : step limit t (.deviceCloses n) =
      some (t.refusing n (n + 1) (.polling .ensureOpened) none [refusal n (n + 1)]) :=
    deviceCloses_refusing (Nat.lt_succ_self n) (Function.update_self ..) hreader hincoming
  have hsecond : n ≠ 1 := by omega
  have hlookup : t.lookup (n + 1) = some n := by
    simp [t, State.lookup, List.lookup_cons, beq_false_of_ne hsecond]
  have hruns : List.replicate 7 (Action.run n) = List.replicate 5 (.run n) ++ List.replicate 2 (.run n) := rfl
  have hne : 0 ≠ n := by omega
  refine ⟨((t.removeEntry (n + 1) n n).refusing n (n + 1) .dead none []).modify n Stream.markClosed, ?_, ?_⟩
  · rw [refused, hruns, List.cons_append, List.cons_append, List.nil_append, runActions, hopens,
      Option.bind_some, runActions, hcloses, Option.bind_some, runActions_append, runs_refusing hlookup,
      Option.bind_some, runs_refused hlookup]
  · have hstreams : (((t.removeEntry (n + 1) n n).refusing n (n + 1) .dead none []).modify n
        Stream.markClosed).streams 0 = s.streams 0 := by
      simp [modify_refusing, t, State.removeEntry, hne]
    rw [← hstreams] at hopened hopen hid
    have hmap' : dictErase (n + 1) t.streamTransportMap = [(2, 1)] := by
      simp [t, dictErase, hsecond]
    exact ⟨rfl, hmap', rfl, rfl, hclosing, rfl, hopened, hopen, hid⟩

theorem unnoticed_allRefused (h : Unnoticed 2 s) (k : ℕ) (hk : k + 2 < limit) :
    ∃ s', runActions (step limit) ((List.range k).flatMap fun k ↦ refused (k + 2)) s = some s' ∧
      Unnoticed (k + 2) s' := by
  induction k with
  | zero => exact ⟨s, rfl, h⟩
  | succ k ih =>
      obtain ⟨t, ht, hafter⟩ := ih (by omega)
      have hlimit : k + 2 + 1 < limit := by omega
      obtain ⟨s', hs', hafter'⟩ := unnoticed_refused hafter (by omega) hlimit
      refine ⟨s', ?_, by rwa [Nat.add_right_comm]⟩
      rw [List.range_succ, List.flatMap_append, runActions_append, ht]
      simpa using hs'

/-- Closing the first stream removes the entry of the one that has got its id. -/
theorem not_closesOnlyItself_of_unnoticed (hlimit : 3 ≤ limit) (h : Unnoticed (limit - 1) s) :
    ∃ s', runActions (step limit) [.openStream [], .close 0, .finishClose 0] s = some s' ∧
      ¬ClosesOnlyItself s' := by
  obtain ⟨hmade, hmap, hlast, hreader, hclosing, hincoming, hopened, hopen, hid⟩ := h
  have hfree : s.freeId limit = some 1 := freeId_of_last (by omega) hlast (by simp [hmap])
  have hne : 0 ≠ limit - 1 := by omega
  simp [runActions, step, State.openStream, hfree, hmade, hmap, hclosing, hopened, hopen, hid, hne,
    State.closeStreamTransport, State.lookup, State.modify, State.setClosing, State.removeEntry,
    Stream.markClosed, dictSet, Stream.localId, List.lookup_cons]
  intro hall
  have hself := hall (0, limit - 1) (by simp)
  exact hne hself.symm

theorem not_closesOnlyItself (hlimit : 3 ≤ limit) :
    ∃ s, runActions (step limit) (reusedId limit) {} = some s ∧ ¬ClosesOnlyItself s := by
  obtain ⟨s₁, hs₁, h₁⟩ := unnoticed_closedByOther hlimit
  obtain ⟨s₂, hs₂, h₂⟩ := unnoticed_allRefused h₁ (limit - 3) (show limit - 3 + 2 < limit by omega)
  have hlast : limit - 3 + 2 = limit - 1 := by omega
  obtain ⟨s₃, hs₃, h₃⟩ := not_closesOnlyItself_of_unnoticed hlimit (hlast ▸ h₂)
  refine ⟨s₃, ?_, h₃⟩
  rw [reusedId, runActions_append, runActions_append, hs₁, Option.bind_some, hs₂, Option.bind_some, hs₃]

theorem not_closesOnlyItself_reusedId :
    ∃ s, runActions (step (2 ^ 16)) (reusedId (2 ^ 16)) {} = some s ∧ ¬ClosesOnlyItself s :=
  @not_closesOnlyItself (2 ^ 16) (by decide)

end Defect

end OpenHtf.Adb
