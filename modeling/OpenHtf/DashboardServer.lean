import OpenHtf.Lib.Dict
import OpenHtf.PubSubReplies

/-!
# The dashboard

The station discovery of `output.servers.dashboard_server`, whose main thread updates the
map of the stations and publishes it if it is new, and the clients of `DashboardPubSub`.
The values in the JSON of a station are a parameter, with `text` for their `str`.
-/

set_option autoImplicit false

namespace OpenHtf.Dashboard

inductive Status where
  | online
  | unreachable
  deriving DecidableEq

structure StationInfo (V : Type) where
  cell : V
  host : String
  port : V
  stationId : V
  status : Status
  testDescription : Option V
  testName : V
  deriving DecidableEq

/-- What `json.loads` makes of a response, if it is JSON: an object, or something that is
not indexed by strings. -/
inductive Result (V : Type) where
  | object (items : List (String × V))
  | other

inductive DiscoverError where
  | unboundLocal
  | type
  deriving DecidableEq

/-- The fields of a `StationInfo`; one that is missing is a `KeyError`. -/
def stationInfo {V : Type} (host : String) (result : List (String × V)) : Option (StationInfo V) := do
  let cell ← result.lookup "cell"
  let port ← result.lookup "port"
  let stationId ← result.lookup "station_id"
  let testDescription := result.lookup "test_description"
  let testName ← result.lookup "test_name"
  pure ⟨cell, host, port, stationId, .online, testDescription, testName⟩

/-- `_discover` from here on, where `result` is the variable of that name.  A response that
is no JSON, for which there is a `none`, leaves it as it is. -/
def discover {V : Type} (result : Option (Result V)) :
    List (String × Option (Result V)) → Except DiscoverError (List (StationInfo V))
  | [] => .ok []
  | (host, response) :: responses =>
    let result := response.or result
    match result with
    | none => .error .unboundLocal
    | some .other => .error .type
    | some (.object items) =>
      (discover result responses).map fun stations ↦ (stationInfo host items).toList ++ stations

variable {V : Type} (text : V → String)

/-- `'%s:%s' % (station_info.host, station_info.port)`. -/
def hostPort (info : StationInfo V) : String := info.host ++ ":" ++ text info.port

def StationInfo.unreachable (info : StationInfo V) : StationInfo V := { info with status := .unreachable }

abbrev StationMap (V : Type) := Dict String (StationInfo V)

/-- `update_stations`. -/
def updateStations (stations : List (StationInfo V)) (map : StationMap V) : StationMap V :=
  (map.filterMap fun _ info ↦ some info.unreachable).update (stations.map fun info ↦ (hostPort text info, info))

/-! ## The main thread -/

/-- The loop of `main`: it has yet to discover, to make the message, or to publish it, or
it is in `publish` or behind it; an exception of `_discover` ends it. -/
inductive Main (V : Type) where
  | discovering
  | updated
  | publishing (message : StationMap V)
  | inPublish
  | ended

/-- `rounds` lists what was discovered. -/
structure State (V C : Type) where
  main : Main V := .discovering
  stationMap : StationMap V := ⟨[], List.nodup_nil⟩
  pubsub : PubSub.State Unit C (StationMap V) := {}
  rounds : List (List (StationInfo V)) := []

/-- `other` is a step of a client, or one of the main thread in `publish`. -/
inductive Action (V C : Type) where
  | discover (responses : List (String × Option (Result V)))
  | makeMessage
  | other (a : PubSub.Action Unit C (StationMap V))

/-- Whether a client gets the last message does not depend on a test here. -/
def wanted {C : Type} : PubSub.Action Unit C (StationMap V) → Bool
  | .look _ wanted => wanted
  | _ => true

/-- Where the main thread is after the step. -/
def Main.after {C : Type} [DecidableEq V] (main : Main V) : PubSub.Action Unit C (StationMap V) → Option (Main V)
  | .publish _ m =>
      match main with
      | .publishing message => if message.items = m.items then some .inPublish else none
      | _ => none
  | .remember _ => some .discovering
  | _ => some main

variable {C : Type} [DecidableEq V] [DecidableEq C]

def step (s : State V C) : Action V C → Option (State V C)
  | .discover responses =>
      match s.main with
      | .discovering =>
          match discover none responses with
          | .ok stations => some { s with
              main := .updated
              stationMap := updateStations text stations s.stationMap
              rounds := s.rounds ++ [stations] }
          | .error _ => some { s with main := .ended }
      | _ => none
  | .makeMessage =>
      match s.main with
      | .updated =>
          -- dicts are equal if their items are the same in any order
          if s.pubsub.last.any fun last ↦ decide (s.stationMap.items.Perm last.items) then
            some { s with main := .discovering }
          else some { s with main := .publishing s.stationMap }
      | _ => none
  | .other a =>
      if wanted a then do
        let main ← s.main.after a
        let pubsub ← PubSub.step s.pubsub a
        some { s with main := main, pubsub := pubsub }
      else none

/-! ## Discovery -/

/-- The hosts of the responses, each with the last JSON up to its response. -/
def attributed (result : Option (Result V)) :
    List (String × Option (Result V)) → List (String × Option (Result V))
  | [] => []
  | (host, response) :: responses => (host, response.or result) :: attributed (response.or result) responses

/-- The station that is yielded for a host, if any. -/
def yielded : String × Option (Result V) → Option (StationInfo V)
  | (host, some (.object items)) => stationInfo host items
  | _ => none

omit [DecidableEq V] in
/-- The discovery succeeds if and only if every response is put down to an object; then it
yields the stations of these objects, also the one before a response that is no JSON once
more under the host of that response. -/
theorem discover_eq_ok_iff (result : Option (Result V)) (responses : List (String × Option (Result V)))
    (stations : List (StationInfo V)) : discover result responses = .ok stations ↔
      (∀ x ∈ attributed result responses, ∃ items, x.2 = some (.object items)) ∧
        stations = (attributed result responses).filterMap yielded := by
  induction responses generalizing result stations with
  | nil => simp [discover, attributed, eq_comm]
  | cons first responses ih =>
      obtain ⟨host, response⟩ := first
      rw [discover, attributed, List.forall_mem_cons]
      rcases hresult : response.or result with _ | (items | _)
      · simp
      · have hmap : ((discover (some (.object items)) responses).map fun rest ↦ (stationInfo host items).toList ++ rest) =
            .ok stations ↔ ∃ rest, discover (some (.object items)) responses = .ok rest ∧
              (stationInfo host items).toList ++ rest = stations := by
          cases discover (some (.object items)) responses <;> simp [Except.map]
        have hcons (xs : List (String × Option (Result V))) : (stationInfo host items).toList ++ xs.filterMap yielded =
            ((host, some (.object items)) :: xs).filterMap yielded := by
          cases hinfo : stationInfo host items <;> simp [yielded, hinfo]
        refine hmap.trans ?_
        constructor
        · rintro ⟨rest, hrest, rfl⟩
          obtain ⟨hall, rfl⟩ := (ih _ _).mp hrest
          exact ⟨⟨⟨items, rfl⟩, hall⟩, hcons _⟩
        · rintro ⟨⟨-, hall⟩, rfl⟩
          exact ⟨_, (ih _ _).mpr ⟨hall, rfl⟩, hcons _⟩
      · simp

omit [DecidableEq V] in
theorem status_stationInfo {host : String} {items : List (String × V)} {info : StationInfo V}
    (h : stationInfo host items = some info) : info.status = .online := by
  simp only [stationInfo, Option.bind_eq_bind, Option.bind_eq_some_iff, Option.pure_def, Option.some.injEq] at h
  obtain ⟨_, -, _, -, _, -, _, -, rfl⟩ := h
  rfl

omit [DecidableEq V] in
theorem status_discover {result : Option (Result V)} {responses : List (String × Option (Result V))}
    {stations : List (StationInfo V)} (h : discover result responses = .ok stations) :
    ∀ info ∈ stations, info.status = .online := by
  rintro info hinfo
  obtain ⟨-, rfl⟩ := (discover_eq_ok_iff result responses stations).mp h
  obtain ⟨⟨host, response⟩, -, hyielded⟩ := List.mem_filterMap.mp hinfo
  rcases response with _ | (items | _)
  · cases hyielded
  · exact status_stationInfo hyielded
  · cases hyielded

/-! ## The map of the stations -/

/-- What the rounds say of a host and port: the last station that was discovered there,
which is not reachable if that was in an earlier round. -/
def view (rounds : List (List (StationInfo V))) (k : String) : Option (StationInfo V) :=
  match (rounds.getLast?.getD []).reverse.find? fun info ↦ hostPort text info = k with
  | some info => some info
  | none => (rounds.flatten.reverse.find? fun info ↦ hostPort text info = k).map StationInfo.unreachable

section Stations

variable {text} {k : String}

omit [DecidableEq V] in
theorem lookup_update_stations (stations : List (StationInfo V)) (map : StationMap V) (k : String) :
    (map.update (stations.map fun info ↦ (hostPort text info, info))).lookup k =
      (stations.reverse.find? fun info ↦ hostPort text info = k).or (map.lookup k) := by
  induction stations generalizing map with
  | nil => rfl
  | cons info stations ih =>
      have hset : (map.set (hostPort text info) info).lookup k =
          if k = hostPort text info then some info else map.lookup k := lookup_dictSet ..
      have hrest := ih (map.set (hostPort text info) info)
      rw [hset] at hrest
      refine hrest.trans ?_
      rw [List.reverse_cons, List.find?_append, Option.or_assoc]
      congr 1
      by_cases hk : k = hostPort text info
      · simp [hk]
      · simp [hk, Ne.symm hk]

omit [DecidableEq V] in
theorem find_flatten_concat (rounds : List (List (StationInfo V))) (stations : List (StationInfo V)) (k : String) :
    ((rounds ++ [stations]).flatten.reverse.find? fun info ↦ hostPort text info = k) =
      (stations.reverse.find? fun info ↦ hostPort text info = k).or
        (rounds.flatten.reverse.find? fun info ↦ hostPort text info = k) := by
  simp [List.flatten_append, List.find?_append]

omit [DecidableEq V] in
theorem map_unreachable_view (rounds : List (List (StationInfo V))) (k : String) :
    (view text rounds k).map StationInfo.unreachable =
      (rounds.flatten.reverse.find? fun info ↦ hostPort text info = k).map StationInfo.unreachable := by
  rcases List.eq_nil_or_concat rounds with rfl | ⟨init, last, rfl⟩
  · rfl
  · rw [List.concat_eq_append, view, find_flatten_concat, List.getLast?_concat, Option.getD_some]
    cases last.reverse.find? fun info ↦ hostPort text info = k with
    | some info => rfl
    | none =>
        rw [Option.none_or, Option.map_map]
        rfl

omit [DecidableEq V] in
theorem view_concat (rounds : List (List (StationInfo V))) (stations : List (StationInfo V)) (k : String) :
    view text (rounds ++ [stations]) k = (stations.reverse.find? fun info ↦ hostPort text info = k).or
      ((view text rounds k).map StationInfo.unreachable) := by
  rw [map_unreachable_view, view, find_flatten_concat, List.getLast?_concat, Option.getD_some]
  cases stations.reverse.find? fun info ↦ hostPort text info = k <;> rfl

omit [DecidableEq V] in
/-- One round of the discovery. -/
theorem lookup_updateStations {rounds : List (List (StationInfo V))} {map : StationMap V}
    (hmap : ∀ k, map.lookup k = view text rounds k) (stations : List (StationInfo V)) (k : String) :
    (updateStations text stations map).lookup k = view text (rounds ++ [stations]) k := by
  rw [updateStations, lookup_update_stations, Dict.lookup_filterMap, hmap, view_concat, Option.map_eq_bind]
  rfl

omit [DecidableEq V] in
/-- The stations that are reachable are those of the last round. -/
theorem status_view {rounds : List (List (StationInfo V))}
    (honline : ∀ stations ∈ rounds, ∀ info ∈ stations, info.status = .online) {k : String} {info : StationInfo V}
    (h : view text rounds k = some info) :
    info.status = .online ↔ ∃ info' ∈ rounds.getLast?.getD [], hostPort text info' = k := by
  rw [view] at h
  split at h
  · rename_i info' hfind
    obtain rfl := Option.some.inj h
    have hmem := List.mem_reverse.mp (List.mem_of_find?_eq_some hfind)
    have hkey := List.find?_some hfind
    refine iff_of_true ?_ ⟨info', hmem, by simpa using hkey⟩
    cases hlast : rounds.getLast? with
    | none => simp [hlast] at hmem
    | some last =>
        rw [hlast, Option.getD_some] at hmem
        exact honline last (List.mem_of_getLast? hlast) info' hmem
  · rename_i hfind
    obtain ⟨info', -, rfl⟩ := Option.map_eq_some_iff.mp h
    refine iff_of_false (by simp [StationInfo.unreachable]) ?_
    rintro ⟨info'', hmem, hkey⟩
    exact absurd (decide_eq_true hkey) (List.find?_eq_none.mp hfind info'' (List.mem_reverse.mpr hmem))

end Stations

/-! ## Runs -/

/-- The message of the main thread is the map that it has updated. -/
def Main.Fits (s : State V C) : Main V → Prop
  | .discovering => s.pubsub.publisher () = .idle ∧
      (s.rounds ≠ [] → ∃ m, s.pubsub.last = some m ∧ m.items.Perm s.stationMap.items)
  | .publishing m => s.pubsub.publisher () = .idle ∧ m = s.stationMap
  | .inPublish =>
      (∃ todo, s.pubsub.publisher () = .sending s.stationMap todo) ∨
        s.pubsub.publisher () = .remembering s.stationMap
  | .updated | .ended => s.pubsub.publisher () = .idle

structure Inv (s : State V C) : Prop where
  online : ∀ stations ∈ s.rounds, ∀ info ∈ stations, info.status = .online
  lookup : ∀ k, s.stationMap.lookup k = view text s.rounds k
  fits : s.main.Fits s

section Runs

variable {text} {s s' : State V C} {c : C}

omit [DecidableEq V] [DecidableEq C] in
theorem inv_init : Inv text ({} : State V C) where
  online _ h := by cases h
  lookup _ := rfl
  fits := ⟨rfl, fun h ↦ absurd rfl h⟩

omit [DecidableEq V] [DecidableEq C] in
theorem Main.Fits.idle {main : Main V} (h : main.Fits s) (hmain : main ≠ .inPublish) : s.pubsub.publisher () = .idle := by
  cases main with
  | discovering | publishing m => exact h.1
  | updated | ended => exact h
  | inPublish => exact absurd rfl hmain

omit [DecidableEq V] [DecidableEq C] in
/-- What a client does. -/
theorem Main.Fits.of_eq {main : Main V} {pubsub : PubSub.State Unit C (StationMap V)} (h : main.Fits s)
    (hpublisher : pubsub.publisher = s.pubsub.publisher) (hlast : pubsub.last = s.pubsub.last) :
    main.Fits { s with pubsub := pubsub } := by
  cases main <;> simpa only [Main.Fits, hpublisher, hlast] using h

theorem fits_other {a : PubSub.Action Unit C (StationMap V)} {main : Main V} {pubsub : PubSub.State Unit C (StationMap V)}
    (h : s.main.Fits s) (hmain : s.main.after a = some main) (hstep : PubSub.step s.pubsub a = some pubsub) :
    main.Fits { s with pubsub := pubsub } := by
  cases a with
  | publish p m =>
      obtain ⟨-, -, rfl⟩ := PubSub.step_publish.mp hstep
      cases hs : s.main with
      | publishing message =>
          simp only [hs, Main.after, Option.ite_none_right_eq_some, Option.some.injEq] at hmain
          obtain ⟨hitems, rfl⟩ := hmain
          rw [hs] at h
          obtain rfl := Dict.ext hitems
          obtain rfl := h.2
          exact .inl ⟨s.pubsub.subscribers, PubSub.publisher_publish s.pubsub () s.stationMap⟩
      | discovering | updated | inPublish | ended => simp [hs, Main.after] at hmain
  | send p c =>
      obtain ⟨m, todo, hpc, hc, rfl⟩ := PubSub.step_send.mp hstep
      obtain rfl := Option.some.inj hmain
      cases hs : s.main with
      | inPublish =>
          rw [hs] at h
          obtain ⟨todo', h⟩ | h := h
          · obtain ⟨rfl, -⟩ := PubSub.Publisher.sending.inj (hpc.symm.trans h)
            exact .inl ⟨todo.erase c, PubSub.publisher_send s.pubsub () c s.stationMap todo⟩
          · cases hpc.symm.trans h
      | discovering | updated | publishing m | ended =>
          cases hpc.symm.trans (h.idle (by simp [hs]))
  | release p =>
      obtain ⟨m, hpc, rfl⟩ := PubSub.step_release.mp hstep
      obtain rfl := Option.some.inj hmain
      cases hs : s.main with
      | inPublish =>
          rw [hs] at h
          obtain ⟨todo', h⟩ | h := h
          · obtain ⟨rfl, -⟩ := PubSub.Publisher.sending.inj (hpc.symm.trans h)
            exact .inr (PubSub.publisher_release s.pubsub () s.stationMap)
          · cases hpc.symm.trans h
      | discovering | updated | publishing m | ended =>
          cases hpc.symm.trans (h.idle (by simp [hs]))
  | remember p =>
      obtain ⟨m, hpc, rfl⟩ := PubSub.step_remember.mp hstep
      obtain rfl := Option.some.inj hmain
      cases hs : s.main with
      | inPublish =>
          rw [hs] at h
          obtain ⟨todo', h⟩ | h := h
          · cases hpc.symm.trans h
          · obtain rfl := PubSub.Publisher.remembering.inj (hpc.symm.trans h)
            exact ⟨PubSub.publisher_remember s.pubsub () s.stationMap, fun _ ↦ ⟨s.stationMap, rfl, .refl _⟩⟩
      | discovering | updated | publishing m | ended =>
          cases hpc.symm.trans (h.idle (by simp [hs]))
  | add c =>
      obtain ⟨-, -, rfl⟩ := PubSub.step_add.mp hstep
      obtain rfl := Option.some.inj hmain
      exact h.of_eq rfl rfl
  | look c wanted =>
      obtain ⟨-, rfl⟩ := PubSub.step_look.mp hstep
      obtain rfl := Option.some.inj hmain
      exact h.of_eq rfl rfl
  | read c =>
      obtain ⟨-, m, -, rfl⟩ := PubSub.step_read.mp hstep
      obtain rfl := Option.some.inj hmain
      exact h.of_eq rfl rfl
  | reply c =>
      obtain ⟨m, -, rfl⟩ := PubSub.step_reply.mp hstep
      obtain rfl := Option.some.inj hmain
      exact h.of_eq rfl rfl
  | remove c =>
      obtain ⟨-, -, rfl⟩ := PubSub.step_remove.mp hstep
      obtain rfl := Option.some.inj hmain
      exact h.of_eq rfl rfl

theorem step_other {a : PubSub.Action Unit C (StationMap V)} (hstep : step text s (.other a) = some s') :
    wanted a = true ∧ ∃ main pubsub, s.main.after a = some main ∧ PubSub.step s.pubsub a = some pubsub ∧
      s' = { s with main := main, pubsub := pubsub } := by
  simp only [step, Option.ite_none_right_eq_some, Option.bind_eq_bind, Option.bind_eq_some_iff] at hstep
  obtain ⟨hwanted, main, hmain, pubsub, hpubsub, h⟩ := hstep
  exact ⟨hwanted, main, pubsub, hmain, hpubsub, (Option.some.inj h).symm⟩

theorem inv_step {a : Action V C} (hinv : Inv text s) (hstep : step text s a = some s') : Inv text s' := by
  cases a with
  | discover responses =>
      have hfits := hinv.fits
      cases hs : s.main with
      | discovering =>
          rw [hs] at hfits
          simp only [step, hs] at hstep
          split at hstep <;> obtain rfl := Option.some.inj hstep
          · rename_i stations hstations
            refine ⟨?_, lookup_updateStations hinv.lookup stations, hfits.1⟩
            intro round hround
            obtain hround | hround := List.mem_append.mp hround
            · exact hinv.online round hround
            · obtain rfl := List.mem_singleton.mp hround
              exact status_discover hstations
          · exact ⟨hinv.online, hinv.lookup, hfits.1⟩
      | updated | publishing m | inPublish | ended => simp [step, hs] at hstep
  | makeMessage =>
      have hfits := hinv.fits
      cases hs : s.main with
      | updated =>
          rw [hs] at hfits
          simp only [step, hs] at hstep
          split at hstep <;> obtain rfl := Option.some.inj hstep
          · rename_i hsame
            cases hlast : s.pubsub.last with
            | none => simp [hlast] at hsame
            | some last =>
                rw [hlast, Option.any_some, decide_eq_true_eq] at hsame
                exact ⟨hinv.online, hinv.lookup, hfits, fun _ ↦ ⟨last, hlast, hsame.symm⟩⟩
          · exact ⟨hinv.online, hinv.lookup, hfits, rfl⟩
      | discovering | publishing m | inPublish | ended => simp [step, hs] at hstep
  | other a =>
      obtain ⟨-, main, pubsub, hmain, hpubsub, rfl⟩ := step_other hstep
      exact ⟨hinv.online, hinv.lookup, fits_other hinv.fits hmain hpubsub⟩

theorem inv_run {as : List (Action V C)} (hrun : runActions (step text) as {} = some s) : Inv text s :=
  run_invariant (C := fun _ _ ↦ True) (fun _ _ _ h _ hstep ↦ inv_step h hstep) inv_init
    (runMeets_of_forall (fun _ _ _ ↦ trivial) _) hrun

def Action.pubsub : Action V C → Option (PubSub.Action Unit C (StationMap V))
  | .other a => some a
  | _ => none

theorem pubsub_step {a : Action V C} (hstep : step text s a = some s') :
    runActions PubSub.step a.pubsub.toList s.pubsub = some s'.pubsub := by
  cases a with
  | discover responses =>
      simp only [step] at hstep
      split at hstep
      · split at hstep <;> cases hstep <;> rfl
      · cases hstep
  | makeMessage =>
      simp only [step] at hstep
      split at hstep
      · split at hstep <;> cases hstep <;> rfl
      · cases hstep
  | other a =>
      obtain ⟨-, main, pubsub, -, hpubsub, rfl⟩ := step_other hstep
      simp [Action.pubsub, runActions, hpubsub]

/-- A run of the dashboard is one of its publisher and its clients. -/
theorem pubsub_run {as : List (Action V C)} (hrun : runActions (step text) as s = some s') :
    runActions PubSub.step (as.filterMap Action.pubsub) s.pubsub = some s'.pubsub := by
  induction as generalizing s with
  | nil =>
      obtain rfl : s = s' := by simpa [runActions] using hrun
      rfl
  | cons a as ih =>
      obtain ⟨t, hstep, hrest⟩ := Option.bind_eq_some_iff.mp hrun
      have hfilter : (a :: as).filterMap Action.pubsub = a.pubsub.toList ++ as.filterMap Action.pubsub := by
        cases ha : a.pubsub <;> simp [ha]
      rw [hfilter, runActions_append, pubsub_step hstep, Option.bind_some, ih hrest]

/-- Between two rounds, a client of the dashboard has been told of every station that was
ever discovered what was discovered last, and that it is reachable just if that was in the
last round; or the client subscribed while a message was being published. -/
theorem lastGot_view {as : List (Action V C)} (hrun : runActions (step text) as {} = some s)
    (hmain : s.main = .discovering) (hrounds : s.rounds ≠ []) (hc : s.pubsub.client c = .subscribed) :
    (∃ m, s.pubsub.lastGot c = some m ∧ ∀ k, m.lookup k = view text s.rounds k ∧
        ∀ info, m.lookup k = some info →
          (info.status = .online ↔ ∃ info' ∈ s.rounds.getLast?.getD [], hostPort text info' = k)) ∨
      ∃ pre a post t, as.filterMap Action.pubsub = pre ++ a :: post ∧ runActions PubSub.step pre {} = some t ∧
        PubSub.Crosses c t a := by
  have hinv := inv_run hrun
  have hfits := hinv.fits
  rw [hmain] at hfits
  obtain ⟨m, hlast, hperm⟩ := hfits.2 hrounds
  refine (PubSub.lastGot_eq_last (pubsub_run hrun) (fun _ ↦ hfits.1) hc).imp_left fun hgot ↦ ?_
  have hview (k : String) : m.lookup k = view text s.rounds k :=
    (lookup_perm hperm m.nodup k).trans (hinv.lookup k)
  refine ⟨m, hgot.trans hlast, fun k ↦ ⟨hview k, fun info hinfo ↦ ?_⟩⟩
  exact status_view hinv.online ((hview k).symm.trans hinfo)

/-- The response of a station at a port, and what is discovered of it. -/
def responseAt (port : String) : String × Option (Result String) :=
  ("h", some (.object [("cell", ""), ("port", port), ("station_id", ""), ("test_name", "")]))

def infoAt (port : String) : StationInfo String := ⟨"", "h", port, "", .online, none, ""⟩

/-- A station that is found in the first of two rounds only. -/
theorem lastGot_view_two :
    let m₁ : StationMap String := ⟨[("h:1", infoAt "1"), ("h:2", infoAt "2")], by decide⟩
    let m₂ : StationMap String := ⟨[("h:1", (infoAt "1").unreachable), ("h:2", infoAt "2")], by decide⟩
    let publish (m : StationMap String) : List (Action String Unit) :=
      [.makeMessage, .other (.publish () m), .other (.send () ()), .other (.release ()), .other (.remember ())]
    let as : List (Action String Unit) := [.other (.add ()), .other (.look () true),
      .discover [responseAt "1", responseAt "2"]] ++ publish m₁ ++ [.discover [responseAt "2"]] ++ publish m₂
    ∃ s, runActions (step id) as {} = some s ∧
      ((∃ m, s.pubsub.lastGot () = some m ∧ ∀ k, m.lookup k = view id s.rounds k ∧
          ∀ info, m.lookup k = some info →
            (info.status = .online ↔ ∃ info' ∈ s.rounds.getLast?.getD [], hostPort id info' = k)) ∨
        ∃ pre a post t, as.filterMap Action.pubsub = pre ++ a :: post ∧ runActions PubSub.step pre {} = some t ∧
          PubSub.Crosses () t a) := by
  intro m₁ m₂ publish as
  have hrun : runActions (step id) as ({} : State String Unit) = some _ := rfl
  exact ⟨_, hrun, lastGot_view hrun rfl (List.cons_ne_nil _ _) rfl⟩

end Runs

end OpenHtf.Dashboard
