import OpenHtf.AdbStep

/-!
# The ids of ADB streams

The local ids in the map of a connection are distinct and in range, whatever the
threads and the device do, and an id is refused only if the next ones are all in
use.
-/

set_option autoImplicit false

namespace OpenHtf.Adb

/-! ## What keeps the id of a stream -/

section LocalId

variable {call : Call} {m : AdbMessage} {x : Stream}

theorem StreamTransport.localId_setOrCheckRemoteId {t t' : StreamTransport} {id : ℕ}
    (h : t.setOrCheckRemoteId id = .ok t') : t'.localId = t.localId := by
  unfold setOrCheckRemoteId at h
  split at h
  · split at h
    · rw [← Except.ok.inj h]
    · cases h
  · split at h
    · rw [Except.ok.inj h]
    · cases h

theorem StreamTransport.localId_handleMessage {t : StreamTransport} {handleWrte : Bool} :
    (t.handleMessage m handleWrte).2.localId = t.localId := by
  unfold handleMessage
  split
  · split
    · rfl
    · rename_i t' hset
      have hid := localId_setOrCheckRemoteId hset
      split <;> exact hid
  · rfl
  · split <;> rfl

/-- What `enqueue_message` does with a message leaves the transport as it is, or sets
its id. -/
theorem StreamTransport.acknowledge_cases {t t' : StreamTransport} {out : List AdbMessage}
    (h : t.acknowledge m = .ok (out, t')) : t' = t ∨ t.setOrCheckRemoteId m.arg0 = .ok t' := by
  unfold acknowledge at h
  split at h
  · split at h
    · cases h
    · exact .inl (Prod.mk.inj (Except.ok.inj h)).2.symm
  · right
    cases hset : t.setOrCheckRemoteId m.arg0 with
    | error e => simp [hset, Except.map] at h
    | ok t'' =>
        simp only [hset, Except.map, Except.ok.injEq, Prod.mk.injEq] at h
        rw [h.2]
  · exact .inl (Prod.mk.inj (Except.ok.inj h)).2.symm

theorem StreamTransport.localId_acknowledge {t t' : StreamTransport} {out : List AdbMessage}
    (h : t.acknowledge m = .ok (out, t')) : t'.localId = t.localId := by
  obtain rfl | hset := acknowledge_cases h
  · rfl
  · exact localId_setOrCheckRemoteId hset

namespace Stream

@[simp] theorem localId_raise {e : StreamError} : (x.raise call e).localId = x.localId := rfl

@[simp] theorem localId_pop {rest : List AdbMessage} : (x.pop call m rest).localId = x.localId := rfl

@[simp] theorem localId_afterMessage : (x.afterMessage call).localId = x.localId := by
  unfold afterMessage
  split
  · split <;> rfl
  · rfl

@[simp] theorem localId_handleMessage : (x.handleMessage call m).localId = x.localId := by
  unfold handleMessage
  have h : (x.transport.handleMessage m (call ≠ .ensureOpened)).2.localId = x.transport.localId :=
    StreamTransport.localId_handleMessage
  split <;> rename_i t heq <;> rw [heq] at h
  · rw [localId_afterMessage]
    exact h
  · exact h

@[simp] theorem localId_loop : (x.loop call).localId = x.localId := by
  unfold loop
  split
  · split <;> rfl
  · split <;> rfl
  · rfl

@[simp] theorem localId_sendClse : x.sendClse.localId = x.localId := by
  unfold sendClse
  split <;> rfl

@[simp] theorem localId_start : (x.start call).localId = x.localId := by
  unfold start
  split
  · split
    · rfl
    · split
      · rfl
      · split <;> rfl
  · rfl

theorem localId_next {x' : Stream} (h : x.next = some x') : x'.localId = x.localId := by
  unfold next at h
  split at h
  · rw [← Option.some.inj h, localId_loop]
  · split at h
    · rw [← Option.some.inj h]
      rfl
    · rw [← Option.some.inj h, localId_pop]
  · split at h
    · rw [← Option.some.inj h, localId_raise]
    · rw [← Option.some.inj h, localId_pop]
  · rw [← Option.some.inj h, localId_handleMessage]
  · cases h

end Stream

end LocalId

/-! ## What a step does to the map -/

/-- The streams, their ids and the map are the same. -/
structure SameMap (s s' : State) : Prop where
  made : s'.made = s.made
  localId : ∀ n, (s'.streams n).localId = (s.streams n).localId
  map : s'.streamTransportMap = s.streamTransportMap

namespace SameMap

variable {s t u : State}

theorem refl (s : State) : SameMap s s := ⟨rfl, fun _ ↦ rfl, rfl⟩

theorem modify (h : SameMap s t) {i : ℕ} {f : Stream → Stream}
    (hf : (f (t.streams i)).localId = (t.streams i).localId) : SameMap s (t.modify i f) where
  made := h.made
  localId n := by
    rw [← h.localId n]
    by_cases hn : n = i
    · subst hn
      simpa [State.modify] using hf
    · simp [State.modify, hn]
  map := h.map

theorem setReader (h : SameMap s t) (r : Option (ℕ × ReaderPc)) : SameMap s (t.setReader r) :=
  ⟨h.made, h.localId, h.map⟩

theorem setIncoming (h : SameMap s t) (frames : List Frame) : SameMap s (t.setIncoming frames) :=
  ⟨h.made, h.localId, h.map⟩

theorem setClosing (h : SameMap s t) (calls : List ℕ) : SameMap s (t.setClosing calls) :=
  ⟨h.made, h.localId, h.map⟩

end SameMap

/-- A step of a thread keeps the map or removes an entry. -/
inductive MapErases (s s' : State) : Prop
  | same (h : SameMap s s')
  | erased (id i j : ℕ) (h : SameMap (s.removeEntry id i j) s')

namespace MapErases

variable {s s' : State}

theorem made (h : MapErases s s') : s'.made = s.made := by
  cases h with
  | same h => exact h.made
  | erased id i j h => exact h.made

theorem localId (h : MapErases s s') (n : ℕ) : (s'.streams n).localId = (s.streams n).localId := by
  cases h with
  | same h => exact h.localId n
  | erased id i j h => exact h.localId n

theorem lookup (h : MapErases s s') {id n : ℕ} (hn : s'.lookup id = some n) : s.lookup id = some n := by
  cases h with
  | same h => rwa [State.lookup, h.map] at hn
  | erased id' i j h =>
      rw [State.lookup, h.map, State.removeEntry, lookup_dictErase] at hn
      split at hn
      · cases hn
      · exact hn

end MapErases

/-- A step keeps the map, removes an entry, or adds one for a new stream. -/
inductive MapStep (limit : ℕ) (s s' : State) : Prop
  | kept (h : MapErases s s')
  | opened (id : ℕ) (free : s.freeId limit = some id) (made : s'.made = s.made + 1)
      (new : (s'.streams s.made).localId = id)
      (localId : ∀ n, n ≠ s.made → (s'.streams n).localId = (s.streams n).localId)
      (map : s'.streamTransportMap = dictSet id s.made s.streamTransportMap)

section Steps

variable {limit : ℕ} {s s' : State}

theorem sameMap_closeStreamTransport (i : ℕ) :
    SameMap s (s.closeStreamTransport i) ∨
      ∃ id j, SameMap (s.removeEntry id i j) (s.closeStreamTransport i) := by
  unfold State.closeStreamTransport
  split
  · exact .inl (.refl s)
  · exact .inr ⟨_, _, (SameMap.refl _).modify (by simp)⟩

/-- What follows the removal of an entry. -/
theorem mapErases_close {i : ℕ}
    (h : ∀ t, SameMap t (s.closeStreamTransport i) → SameMap t s') : MapErases s s' := by
  rcases sameMap_closeStreamTransport (s := s) i with hs | ⟨id, j, hs⟩
  · exact .same (h s hs)
  · exact .erased id i j (h _ hs)

theorem mapErases_handleOwn (i : ℕ) (call : Call) (f : Frame) :
    MapErases s (s.handleOwn i call f) := by
  have hs := SameMap.refl s
  unfold State.handleOwn
  dsimp only
  split
  · split
    · exact .same (((hs.modify (by rfl)).modify (by rfl)).setReader none)
    · exact .same (((hs.modify (by rfl)).modify (by rfl)).setReader none)
  · exact mapErases_close fun t ht ↦ (ht.modify (by rfl)).setReader none
  · exact .same ((hs.modify (by rfl)).setReader none)

theorem mapErases_readerStep {i : ℕ} {call : Call} {pos : ReaderPc}
    (h : ReaderStepped i call s pos s') : MapErases s s' := by
  have hs := SameMap.refl s
  cases h with
  | pops | unexpected => exact .same ((hs.modify (by simp)).setReader none)
  | receives | forwards | keepsOpen => exact .same (hs.setReader _)
  | reads => exact .same ((hs.setIncoming _).setReader _)
  | own f => exact mapErases_handleOwn i call f
  | drops | puts => exact .same ((hs.modify (by rfl)).setReader _)
  | closes => exact mapErases_close fun t ht ↦ ht.setReader _
  | fails => exact .same (((hs.modify (by rfl)).modify (by simp)).setReader none)
  | acknowledges f dest out t hack =>
      exact .same ((hs.modify (StreamTransport.localId_acknowledge hack)).setReader _)

theorem mapErases_run {i : ℕ} (h : s.run i = some s') : MapErases s s' := by
  have hs := SameMap.refl s
  cases runStepped h with
  | found | notFound | busy => exact .same (hs.modify (by rfl))
  | locks => exact .same ((hs.modify (by rfl)).setReader _)
  | reads call pos _ _ _ h => exact mapErases_readerStep h
  | alone x _ hx => exact .same (hs.modify (Stream.localId_next hx))

theorem mapErases_timeout {i : ℕ} (h : s.timeout i = some s') : MapErases s s' := by
  have hs := SameMap.refl s
  cases timedOut h with
  | outside => exact .same (hs.modify (by simp))
  | inside => exact .same ((hs.modify (by simp)).setReader none)

theorem mapStep_openStream (destination : List UInt8) :
    MapStep limit s (s.openStream limit destination) := by
  unfold State.openStream
  split
  · exact .kept (.same ⟨rfl, fun _ ↦ rfl, rfl⟩)
  · rename_i id hid
    refine .opened id hid rfl (by simp [Stream.newStream, Stream.localId]) (fun n hn ↦ ?_) rfl
    simp [hn]

theorem mapErases_step {a : Action} (ha : ∀ destination, a ≠ .openStream destination)
    (h : step limit s a = some s') : MapErases s s' := by
  have hs := SameMap.refl s
  cases stepped h with
  | openStream destination => exact absurd rfl (ha destination)
  | call => exact .same (hs.modify (by simp))
  | run i _ h => exact mapErases_run h
  | timeout i _ h => exact mapErases_timeout h
  | closed => exact .same hs
  | close => exact .same ((hs.modify (by rfl)).setClosing _)
  | finishClose => exact mapErases_close fun t ht ↦ ht.setClosing _
  | deviceAcks => exact .same (hs.setIncoming _)
  | deviceOpens | deviceWrites | deviceCloses => exact .same ((hs.modify (by rfl)).setIncoming _)

theorem mapStep_step {a : Action} (h : step limit s a = some s') : MapStep limit s s' := by
  cases a with
  | openStream destination =>
      obtain rfl := Option.some.inj h
      exact mapStep_openStream destination
  | _ => exact .kept (mapErases_step (by simp) h)

end Steps

/-! ## The ids that are tried -/

/-- The id at place `k` behind `last` in the cyclic order of the ids. -/
def cyclicId (limit last k : ℕ) : ℕ := (last % limit + k) % (limit - 1) + 1

theorem length_candidates {limit last : ℕ} (hle : last < limit) :
    (candidates limit (last + 1)).length = min 64 (limit - 1) := by
  simp only [candidates, List.length_take, List.length_append, List.length_range']
  omega

/-- At most 64 of the ids are tried, each once, in cyclic order. -/
theorem candidates_eq {limit last : ℕ} (hle : last < limit) :
    candidates limit (last + 1) =
      (List.range (min 64 (limit - 1))).map fun k ↦ (last + k) % (limit - 1) + 1 := by
  refine List.ext_getElem (by simp [length_candidates hle]) fun k hk hk' ↦ ?_
  rw [length_candidates hle] at hk
  simp only [candidates, List.getElem_take, List.getElem_map, List.getElem_range]
  rw [List.getElem_append]
  split
  · rename_i hlt
    rw [List.length_range'] at hlt
    rw [List.getElem_range', Nat.mod_eq_of_lt (by omega)]
    omega
  · rename_i hge
    rw [List.length_range'] at hge
    simp only [List.getElem_range', List.length_range']
    have hwrap : last + k = (k - (limit - (last + 1))) + (limit - 1) := by omega
    rw [hwrap, Nat.add_mod_right, Nat.mod_eq_of_lt (by omega)]
    omega

theorem mem_candidates_iff {limit id : ℕ} (hlimit : 0 < limit) (s : State) :
    id ∈ candidates limit (s.nextId limit) ↔
      ∃ k < min 64 (limit - 1), cyclicId limit s.lastIdUsed k = id := by
  rw [State.nextId, candidates_eq (Nat.mod_lt _ hlimit)]
  simp [cyclicId]

theorem cyclicId_bounds {limit last k : ℕ} (hk : k < limit - 1) :
    1 ≤ cyclicId limit last k ∧ cyclicId limit last k < limit := by
  have hmod : (last % limit + k) % (limit - 1) < limit - 1 := Nat.mod_lt _ (by omega)
  unfold cyclicId
  omega

/-! ## Unique ids -/

/-- The local ids in the map are distinct and in range; the next stream gets an id
that is not in use, and gets none only if all the ids that are next in cyclic
order, 64 at most, are in use. -/
structure IdsUnique (limit : ℕ) (s : State) : Prop where
  distinct : (s.streamTransportMap.map fun e ↦ (s.streams e.2).localId).Nodup
  inRange : ∀ e ∈ s.streamTransportMap, 1 ≤ (s.streams e.2).localId ∧ (s.streams e.2).localId < limit
  fresh : ∀ id, s.freeId limit = some id →
    id ∉ s.streamTransportMap.map fun e ↦ (s.streams e.2).localId
  refused : s.freeId limit = none → ∀ k < min 64 (limit - 1),
    cyclicId limit s.lastIdUsed k ∈ s.streamTransportMap.map fun e ↦ (s.streams e.2).localId

/-! ## The invariant -/

/-- The map is a dict from the local ids of its transports. -/
structure MapInv (limit : ℕ) (s : State) : Prop where
  nodup : (s.streamTransportMap.map Prod.fst).Nodup
  made : ∀ id n, (id, n) ∈ s.streamTransportMap → n < s.made
  localId : ∀ id n, (id, n) ∈ s.streamTransportMap → (s.streams n).localId = id
  inRange : ∀ id n, (id, n) ∈ s.streamTransportMap → 1 ≤ id ∧ id < limit

section Invariant

variable {limit : ℕ} {s s' : State}

theorem mapInv_initial : MapInv limit {} where
  nodup := List.nodup_nil
  made _ _ h := by cases h
  localId _ _ h := by cases h
  inRange _ _ h := by cases h

theorem MapInv.same (h : MapInv limit s) (hs : SameMap s s') : MapInv limit s' := by
  constructor
  · rw [hs.map]
    exact h.nodup
  · intro id n hmem
    rw [hs.map] at hmem
    rw [hs.made]
    exact h.made id n hmem
  · intro id n hmem
    rw [hs.map] at hmem
    rw [hs.localId]
    exact h.localId id n hmem
  · intro id n hmem
    rw [hs.map] at hmem
    exact h.inRange id n hmem

theorem MapInv.removeEntry (h : MapInv limit s) (id i j : ℕ) : MapInv limit (s.removeEntry id i j) where
  nodup := nodup_keys_dictErase h.nodup
  made id' n hmem := h.made id' n (mem_of_mem_dictErase hmem)
  localId id' n hmem := h.localId id' n (mem_of_mem_dictErase hmem)
  inRange id' n hmem := h.inRange id' n (mem_of_mem_dictErase hmem)

theorem freeId_not_mem {id : ℕ} (h : s.freeId limit = some id) :
    id ∉ s.streamTransportMap.map Prod.fst := by
  simpa using List.find?_some h

theorem freeId_inRange (hlimit : 0 < limit) {id : ℕ} (h : s.freeId limit = some id) :
    1 ≤ id ∧ id < limit := by
  obtain ⟨k, hk, rfl⟩ := (mem_candidates_iff hlimit s).mp (List.mem_of_find?_eq_some h)
  exact cyclicId_bounds (by omega)

theorem streamTransportMap_opened {id : ℕ} (h : s.freeId limit = some id) :
    dictSet id s.made s.streamTransportMap = s.streamTransportMap ++ [(id, s.made)] := by
  refine dictSet_eq_append ?_
  have hid := freeId_not_mem h
  simp only [List.mem_map, not_exists, not_and] at hid
  simp only [List.any_eq_false, decide_eq_true_eq]
  exact fun e he ↦ hid e he

theorem mapInv_step (hlimit : 0 < limit) (h : MapInv limit s) (hstep : MapStep limit s s') :
    MapInv limit s' := by
  cases hstep with
  | kept hs =>
      cases hs with
      | same hs => exact h.same hs
      | erased id i j hs => exact (h.removeEntry id i j).same hs
  | opened id free made new localId map =>
      rw [streamTransportMap_opened free] at map
      have hmem : ∀ id' n, (id', n) ∈ s'.streamTransportMap →
          (id', n) ∈ s.streamTransportMap ∨ id' = id ∧ n = s.made := by
        intro id' n hmem
        simpa [map] using hmem
      constructor
      · rw [map]
        exact nodup_keys_append h.nodup (freeId_not_mem free)
      · intro id' n hn
        rw [made]
        rcases hmem id' n hn with hold | ⟨-, rfl⟩
        · exact Nat.lt_succ_of_lt (h.made id' n hold)
        · exact Nat.lt_succ_self _
      · intro id' n hn
        rcases hmem id' n hn with hold | ⟨rfl, rfl⟩
        · rw [localId n (Nat.ne_of_lt (h.made id' n hold))]
          exact h.localId id' n hold
        · exact new
      · intro id' n hn
        rcases hmem id' n hn with hold | ⟨rfl, -⟩
        · exact h.inRange id' n hold
        · exact freeId_inRange hlimit free

/-- The local ids of the transports in the map are its keys. -/
theorem MapInv.localIds (h : MapInv limit s) :
    (s.streamTransportMap.map fun e ↦ (s.streams e.2).localId) = s.streamTransportMap.map Prod.fst :=
  List.map_congr_left fun e he ↦ h.localId e.1 e.2 he

theorem MapInv.idsUnique (hlimit : 0 < limit) (h : MapInv limit s) : IdsUnique limit s where
  distinct := by
    rw [h.localIds]
    exact h.nodup
  inRange e he := by
    rw [h.localId e.1 e.2 he]
    exact h.inRange e.1 e.2 he
  fresh id hid := by
    rw [h.localIds]
    exact freeId_not_mem hid
  refused hnone k hk := by
    rw [h.localIds]
    have htried := (mem_candidates_iff hlimit s).mpr ⟨k, hk, rfl⟩
    simpa using List.find?_eq_none.mp hnone _ htried

theorem mapInv_run (hlimit : 0 < limit) {as : List Action}
    (hrun : runActions (step limit) as {} = some s) : MapInv limit s :=
  run_invariant (C := fun _ _ ↦ True) (fun _ _ _ h _ hstep ↦ mapInv_step hlimit h (mapStep_step hstep))
    mapInv_initial (runMeets_of_forall (fun _ _ _ ↦ trivial) _) hrun

/-- In every run of a connection the ids of its streams are unique. -/
theorem ids_unique (hlimit : 0 < limit) (as : List Action) (s : State)
    (hrun : runActions (step limit) as {} = some s) : IdsUnique limit s :=
  (mapInv_run hlimit hrun).idsUnique hlimit

end Invariant

/-- A stream is opened, another one is refused by the device, and its id is given
to a third one. -/
def refusedOpen : List Action :=
  [.openStream [], .openStream [], .deviceOpens 0 7, .deviceCloses 1, .run 1, .run 1, .run 1,
    .run 1, .run 1, .run 1, .run 1, .run 1, .run 1, .run 1, .run 1, .openStream []]

theorem ids_unique_refused : ∃ s, runActions (step 3) refusedOpen {} = some s ∧ IdsUnique 3 s := by
  obtain ⟨s, hs⟩ : ∃ s, runActions (step 3) refusedOpen {} = some s := ⟨_, rfl⟩
  exact ⟨s, hs, ids_unique (by decide) refusedOpen s hs⟩

end OpenHtf.Adb
