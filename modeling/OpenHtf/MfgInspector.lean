import Mathlib.Data.List.Chain
import OpenHtf.Lib.Action

/-!
# Uploads to mfg-inspector

`MfgInspector` and `send_mfg_inspector_data` of `output.callbacks.mfg_inspector`: the
callbacks of one instance convert the record once and keep the proto, and an upload is
tried several times.  Records, protos and bytes are parameters; so is what the converter,
the serialisation and the server do.
-/

set_option autoImplicit false

namespace OpenHtf.MfgInspector

/-! ## Requests -/

def MAX_UPLOAD_ATTEMPTS : ℕ := 5

def HTTP_OK : ℕ := 200

def HTTP_BAD_REQUEST : ℕ := 400

/-- A JSON value that a server sends: an object, as far as its texts go, or another one. -/
inductive Json where
  | object (items : List (String × String))
  | other
  deriving DecidableEq

/-- What becomes of a request: it fails in the network, raises something else, or is
answered, with JSON or not. -/
inductive Reply (E : Type) where
  | requestFailed
  | raised (e : E)
  | notJson (statusCode : ℕ)
  | json (statusCode : ℕ) (result : Json)

/-- What the callbacks raise; `attribute` is that of `result.get`. -/
inductive Error (E : Type) where
  | runtime (text : String)
  | converter (e : E)
  | file (e : E)
  | uploadFailed
  | invalidTestRun (message : String)
  | attribute
  | request (e : E)

variable {E : Type}

/-- `'%s: %s' % (result.get('error', ..), result.get('message', ..))`. -/
def errorMessage (items : List (String × String)) : String :=
  (items.lookup "error").getD "UNKNOWN_ERROR" ++ ": " ++ (items.lookup "message").getD "No error message provided"

/-- `_send_mfg_inspector_request`, where the server answers so. -/
def sendRequest : Reply E → Except (Error E) Json
  | .requestFailed | .notJson _ => .error .uploadFailed
  | .raised e => .error (.request e)
  | .json statusCode result =>
    if statusCode = HTTP_OK then .ok result
    else
      match result with
      | .other => .error .attribute
      | .object items =>
        if statusCode = HTTP_BAD_REQUEST then .error (.invalidTestRun (errorMessage items)) else .error .uploadFailed

/-- A sequence of requests: how many there were, the sleeps between them and the outcome. -/
structure Upload (E : Type) where
  requests : ℕ
  sleeps : ℕ
  result : Except (Error E) Json

/-- The loop of `send_mfg_inspector_data` from an attempt on, so many of which are left. -/
def sendLoop (server : ℕ → Reply E) (attempt : ℕ) : ℕ → Upload E
  | 0 => ⟨0, 0, .ok (.object [])⟩
  | left + 1 =>
    match sendRequest (server attempt) with
    | .error .uploadFailed =>
      let rest := sendLoop server (attempt + 1) left
      ⟨rest.requests + 1, rest.sleeps + (if attempt < MAX_UPLOAD_ATTEMPTS then 1 else 0), rest.result⟩
    | result => ⟨1, 0, result⟩

/-- `send_mfg_inspector_data`, where the server answers its attempts so. -/
def sendData (server : ℕ → Reply E) : Upload E := sendLoop server 1 MAX_UPLOAD_ATTEMPTS

/-! ## The callbacks -/

/-- The values of `PARAMS` in a record. -/
structure Params (V : Type) where
  dutId : Option V := none
  endTimeMillis : Option V := none
  startTimeMillis : Option V := none
  stationId : Option V := none
  deriving DecidableEq

structure Envelope (B : Type) where
  payload : B
  payloadType : String

variable {R P V B : Type}

/-- An `MfgInspector`, with what its callbacks have written to files and sent, and the
records that have been converted. -/
structure State (R P V B E : Type) where
  converter : Option (R → Except E P) := none
  cachedProto : Option P := none
  cachedParams : Params V := {}
  uploadResult : Option Json := none
  files : List (R × B) := []
  requests : List (R × Envelope B) := []
  converted : List R := []

/-- What the instance uses: the parameters of a record, `SerializeToString` and
`zlib.compress`. -/
structure Library (R P V B : Type) where
  params : R → Params V
  serialize : P → B
  compress : B → B

/-- `payload_type.Name(..).lower().startswith('compressed_')`. -/
def isCompressedPayloadType (payloadType : String) : Bool :=
  "compressed_".toList.isPrefixOf (payloadType.toList.map Char.toLower)

/-- The proto of a record is kept, with the parameters of the record. -/
def State.cache (s : State R P V B E) (lib : Library R P V B) (r : R) (proto : P) : State R P V B E :=
  { s with
    cachedProto := some proto
    cachedParams := lib.params r
    converted := s.converted ++ [r] }

section Callbacks

variable [DecidableEq V] (lib : Library R P V B)

/-- `_convert`. -/
def convert (r : R) : Act (State R P V B E) (Error E) P := fun s ↦
  match s.cachedProto with
  | some proto => if s.cachedParams = lib.params r then (.ok proto, s) else fresh s
  | none => fresh s
where
  fresh (s : State R P V B E) : Except (Error E) P × State R P V B E :=
    match s.converter with
    | none => (.error (.runtime "Must set _converter on subclass or via set_converter before calling save_to_disk."), s)
    | some converter =>
      match converter r with
      | .error e => (.error (.converter e), s)
      | .ok proto => (.ok proto, s.cache lib r proto)

/-- `save_to_disk_callback`, where the file is opened, written and closed so. -/
def saveToDiskCallback (file : Except E Unit) (r : R) : Act (State R P V B E) (Error E) Unit := do
  let proto ← convert lib r
  match file with
  | .error e => Act.raise (.file e)
  | .ok () => Act.modify fun s ↦ { s with files := s.files ++ [(r, lib.serialize proto)] }

def envelope (payloadType : String) (proto : P) : Envelope B :=
  let data := lib.serialize proto
  ⟨if isCompressedPayloadType payloadType then lib.compress data else data, payloadType⟩

/-- `upload_callback`, where the server answers its attempts so. -/
def uploadCallback (payloadType : String) (server : ℕ → Reply E) (r : R) : Act (State R P V B E) (Error E) Unit := do
  let proto ← convert lib r
  let upload := sendData server
  Act.modify fun s ↦ { s with
    requests := s.requests ++ List.replicate upload.requests (r, envelope lib payloadType proto) }
  let result ← Act.ofExcept upload.result
  Act.modify fun s ↦ { s with uploadResult := some result }

/-- `set_converter`, or a call of a callback. -/
inductive Call (R P E : Type) where
  | setConverter (converter : R → Except E P)
  | save (file : Except E Unit) (r : R)
  | upload (payloadType : String) (server : ℕ → Reply E) (r : R)

def Call.record : Call R P E → Option R
  | .setConverter _ => none
  | .save _ r | .upload _ _ r => some r

/-- A caller catches what a callback raises. -/
def step (s : State R P V B E) : Call R P E → State R P V B E
  | .setConverter converter => { s with converter := some converter }
  | .save file r => (saveToDiskCallback lib file r s).2
  | .upload payloadType server r => (uploadCallback lib payloadType server r s).2

def run (calls : List (Call R P E)) (s : State R P V B E) : State R P V B E := calls.foldl (step lib) s

end Callbacks

/-! ## Attempts -/

/-- The attempt is worth another one. -/
def Transient (reply : Reply E) : Prop := sendRequest reply = .error .uploadFailed

theorem sendLoop_succ_of_transient {server : ℕ → Reply E} {attempt : ℕ} (h : Transient (server attempt)) (left : ℕ) :
    sendLoop server attempt (left + 1) = ⟨(sendLoop server (attempt + 1) left).requests + 1,
      (sendLoop server (attempt + 1) left).sleeps + (if attempt < MAX_UPLOAD_ATTEMPTS then 1 else 0),
      (sendLoop server (attempt + 1) left).result⟩ := by
  rw [sendLoop, show sendRequest (server attempt) = _ from h]

theorem sendLoop_succ_of_not_transient {server : ℕ → Reply E} {attempt : ℕ} (h : ¬Transient (server attempt))
    (left : ℕ) : sendLoop server attempt (left + 1) = ⟨1, 0, sendRequest (server attempt)⟩ := by
  rw [sendLoop]
  split
  · rename_i hfailed
    exact absurd hfailed h
  · rfl

/-- The attempts up to the first that is conclusive, or all of them. -/
theorem sendLoop_spec (server : ℕ → Reply E) (attempt left : ℕ) (h : attempt + left = MAX_UPLOAD_ATTEMPTS + 1) :
    (∃ k < left, (∀ j < k, Transient (server (attempt + j))) ∧ ¬Transient (server (attempt + k)) ∧
        sendLoop server attempt left = ⟨k + 1, k, sendRequest (server (attempt + k))⟩) ∨
      ((∀ j < left, Transient (server (attempt + j))) ∧
        sendLoop server attempt left = ⟨left, left - 1, .ok (.object [])⟩) := by
  induction left generalizing attempt with
  | zero => exact .inr ⟨fun j hj ↦ absurd hj (Nat.not_lt_zero j), rfl⟩
  | succ left ih =>
      by_cases hfirst : Transient (server attempt)
      · rw [sendLoop_succ_of_transient hfirst]
        have hshift (j : ℕ) : attempt + 1 + j = attempt + (j + 1) := by omega
        have hbefore {k : ℕ} (hk : ∀ j < k, Transient (server (attempt + 1 + j))) :
            ∀ j < k + 1, Transient (server (attempt + j)) := by
          intro j hj
          cases j with
          | zero => exact hfirst
          | succ j => exact hshift j ▸ hk j (Nat.lt_of_succ_lt_succ hj)
        obtain ⟨k, hk, hall, hnot, heq⟩ | ⟨hall, heq⟩ := ih (attempt + 1) (by omega)
        · refine .inl ⟨k + 1, by omega, hbefore hall, hshift k ▸ hnot, ?_⟩
          rw [heq, if_pos (by omega), hshift]
        · refine .inr ⟨hbefore hall, ?_⟩
          rw [heq]
          cases left with
          | zero => simp [show ¬attempt < MAX_UPLOAD_ATTEMPTS by omega]
          | succ left => simp [show attempt < MAX_UPLOAD_ATTEMPTS by omega]
      · refine .inl ⟨0, Nat.succ_pos left, ?_, hfirst, sendLoop_succ_of_not_transient hfirst left⟩
        exact fun j hj ↦ absurd hj (Nat.not_lt_zero j)

/-! ## The cache -/

section Cache

variable [DecidableEq V] {lib : Library R P V B} {s s' : State R P V B E} {r : R} {proto : P}

/-- The proto is what a converter has made of a converted record with these parameters. -/
def Converted (lib : Library R P V B) (converters : (R → Except E P) → Prop) (s : State R P V B E) (params : Params V)
    (proto : P) : Prop :=
  ∃ converter r, converters converter ∧ r ∈ s.converted ∧ lib.params r = params ∧ converter r = .ok proto

/-- What has left the instance is the conversion of a record with the parameters of the
record it was for; the last converted record is the one in the cache, and two that were
converted one after the other differ in their parameters. -/
structure Inv (lib : Library R P V B) (converters : (R → Except E P) → Prop) (records : R → Prop)
    (s : State R P V B E) : Prop where
  converter : ∀ converter, s.converter = some converter → converters converter
  cached : ∀ proto, s.cachedProto = some proto → Converted lib converters s s.cachedParams proto
  last : s.converted.getLast?.map lib.params = s.cachedProto.map fun _ ↦ s.cachedParams
  chain : s.converted.IsChain fun r r' ↦ lib.params r ≠ lib.params r'
  known : ∀ r ∈ s.converted, records r
  files : ∀ x ∈ s.files, records x.1 ∧ ∃ proto, Converted lib converters s (lib.params x.1) proto ∧ x.2 = lib.serialize proto
  requests : ∀ x ∈ s.requests, records x.1 ∧ ∃ proto payloadType,
    Converted lib converters s (lib.params x.1) proto ∧ x.2 = envelope lib payloadType proto

variable {converters : (R → Except E P) → Prop} {records : R → Prop}

omit [DecidableEq V] in
theorem Converted.mono {params : Params V} (h : Converted lib converters s params proto)
    (hsubset : s.converted ⊆ s'.converted) : Converted lib converters s' params proto := by
  obtain ⟨converter, r, hconverter, hr, hparams, hproto⟩ := h
  exact ⟨converter, r, hconverter, hsubset hr, hparams, hproto⟩

/-- One use of the cache. -/
structure Used (lib : Library R P V B) (converters : (R → Except E P) → Prop) (records : R → Prop) (r : R)
    (s : State R P V B E) (out : Except (Error E) P × State R P V B E) : Prop where
  inv : Inv lib converters records out.2
  files : out.2.files = s.files
  requests : out.2.requests = s.requests
  uploadResult : out.2.uploadResult = s.uploadResult
  converted : ∀ proto, out.1 = .ok proto → Converted lib converters out.2 (lib.params r) proto

omit [DecidableEq V] in
theorem used_fresh (hinv : Inv lib converters records s) (hr : records r)
    (hmiss : s.cachedProto = none ∨ s.cachedParams ≠ lib.params r) :
    Used lib converters records r s (convert.fresh lib r s) := by
  have hkept {e : Error E} : Used lib converters records r s (.error e, s) :=
    ⟨hinv, rfl, rfl, rfl, fun _ h ↦ by cases h⟩
  obtain hnone | ⟨converter, hconverter⟩ := Option.eq_none_or_eq_some s.converter
  · simp only [convert.fresh, hnone]
    exact hkept
  · cases hproto : converter r with
    | error e =>
        simp only [convert.fresh, hconverter, hproto]
        exact hkept
    | ok proto =>
        have heq : convert.fresh lib r s = (.ok proto, s.cache lib r proto) := by
          simp [convert.fresh, hconverter, hproto]
        rw [heq]
        set t := s.cache lib r proto with ht
        have hsubset : s.converted ⊆ t.converted := List.subset_append_left _ _
        have hnew : Converted lib converters t (lib.params r) proto :=
          ⟨converter, r, hinv.converter converter hconverter, by simp [ht, State.cache], rfl, hproto⟩
        refine ⟨⟨hinv.converter, ?_, ?_, ?_, ?_, ?_, ?_⟩, rfl, rfl, rfl, ?_⟩
        · rintro proto' ⟨⟩
          exact hnew
        · simp [ht, State.cache]
        · simp only [ht, State.cache]
          rw [List.isChain_append]
          refine ⟨hinv.chain, List.isChain_singleton r, ?_⟩
          rintro r' hr' _ ⟨⟩ heq
          have hlast := hinv.last
          rw [show s.converted.getLast? = some r' from hr'] at hlast
          obtain hnone | hne := hmiss
          · simp [hnone] at hlast
          · cases hcached : s.cachedProto with
            | none => simp [hcached] at hlast
            | some proto' =>
                rw [hcached] at hlast
                exact hne ((Option.some.inj hlast).symm.trans heq)
        · rintro r' hr'
          obtain hr' | hr' := List.mem_append.mp hr'
          · exact hinv.known r' hr'
          · exact List.mem_singleton.mp hr' ▸ hr
        · rintro x hx
          obtain ⟨hx, proto', hconv, heq⟩ := hinv.files x hx
          exact ⟨hx, proto', hconv.mono hsubset, heq⟩
        · rintro x hx
          obtain ⟨hx, proto', payloadType, hconv, heq⟩ := hinv.requests x hx
          exact ⟨hx, proto', payloadType, hconv.mono hsubset, heq⟩
        · rintro proto' ⟨⟩
          exact hnew

theorem used_convert (hinv : Inv lib converters records s) (hr : records r) : Used lib converters records r s (convert lib r s) := by
  rw [convert]
  split
  · rename_i proto hcached
    split_ifs with hparams
    · refine ⟨hinv, rfl, rfl, rfl, ?_⟩
      rintro proto' ⟨⟩
      exact hparams ▸ hinv.cached proto hcached
    · exact used_fresh hinv hr (.inr hparams)
  · rename_i hcached
    exact used_fresh hinv hr (.inl hcached)

omit [DecidableEq V] in
theorem Inv.addFile (hinv : Inv lib converters records s) (hr : records r)
    (hproto : Converted lib converters s (lib.params r) proto) :
    Inv lib converters records { s with files := s.files ++ [(r, lib.serialize proto)] } where
  converter := hinv.converter
  cached := hinv.cached
  last := hinv.last
  chain := hinv.chain
  known := hinv.known
  files x hx := by
    obtain hx | hx := List.mem_append.mp hx
    · exact hinv.files x hx
    · obtain rfl := List.mem_singleton.mp hx
      exact ⟨hr, proto, hproto, rfl⟩
  requests := hinv.requests

omit [DecidableEq V] in
theorem Inv.addRequests (hinv : Inv lib converters records s) (hr : records r)
    (hproto : Converted lib converters s (lib.params r) proto)
    (n : ℕ) (payloadType : String) :
    Inv lib converters records { s with requests := s.requests ++ List.replicate n (r, envelope lib payloadType proto) } where
  converter := hinv.converter
  cached := hinv.cached
  last := hinv.last
  chain := hinv.chain
  known := hinv.known
  files := hinv.files
  requests x hx := by
    obtain hx | hx := List.mem_append.mp hx
    · exact hinv.requests x hx
    · obtain rfl := List.eq_of_mem_replicate hx
      exact ⟨hr, proto, payloadType, hproto, rfl⟩

theorem inv_saveToDiskCallback (hinv : Inv lib converters records s) (hr : records r) (file : Except E Unit) :
    Inv lib converters records (saveToDiskCallback lib file r s).2 := by
  have hused := used_convert hinv hr
  rw [saveToDiskCallback, Act.bind_apply]
  rcases hout : convert lib r s with ⟨e | proto, t⟩ <;> rw [hout] at hused
  · exact hused.inv
  · cases file with
    | error e => exact hused.inv
    | ok done => exact hused.inv.addFile hr (hused.converted proto rfl)

theorem inv_uploadCallback (hinv : Inv lib converters records s) (hr : records r) (payloadType : String) (server : ℕ → Reply E) :
    Inv lib converters records (uploadCallback lib payloadType server r s).2 := by
  have hused := used_convert hinv hr
  rw [uploadCallback, Act.bind_apply]
  rcases hout : convert lib r s with ⟨e | proto, t⟩ <;> rw [hout] at hused
  · exact hused.inv
  · have hsent := hused.inv.addRequests hr (hused.converted proto rfl) (sendData server).requests payloadType
    simp only [Act.andThen, Act.bind_apply, Act.modify_apply, Act.ofExcept_apply]
    cases (sendData server).result with
    | error e => exact hsent
    | ok result => exact ⟨hsent.converter, hsent.cached, hsent.last, hsent.chain, hsent.known, hsent.files, hsent.requests⟩

theorem inv_step (hinv : Inv lib converters records s) {call : Call R P E}
    (hconverter : ∀ converter, call = .setConverter converter → converters converter)
    (hrecord : ∀ r ∈ call.record, records r) : Inv lib converters records (step lib s call) := by
  cases call with
  | setConverter converter =>
      refine ⟨?_, hinv.cached, hinv.last, hinv.chain, hinv.known, hinv.files, hinv.requests⟩
      rintro _ ⟨⟩
      exact hconverter converter rfl
  | save file r => exact inv_saveToDiskCallback hinv (hrecord r rfl) file
  | upload payloadType server r => exact inv_uploadCallback hinv (hrecord r rfl) payloadType server

theorem inv_run {calls : List (Call R P E)} (hinv : Inv lib converters records s)
    (hconverters : ∀ converter, .setConverter converter ∈ calls → converters converter)
    (hrecords : ∀ call ∈ calls, ∀ r ∈ call.record, records r) : Inv lib converters records (run lib calls s) := by
  induction calls generalizing s with
  | nil => exact hinv
  | cons call calls ih =>
      apply ih
      · apply inv_step hinv
        · rintro converter rfl
          exact hconverters converter List.mem_cons_self
        · exact hrecords call List.mem_cons_self
      · exact fun converter h ↦ hconverters converter (List.mem_cons_of_mem _ h)
      · exact fun call h ↦ hrecords call (List.mem_cons_of_mem _ h)

omit [DecidableEq V] in
theorem inv_init : Inv lib converters records ({} : State R P V B E) where
  converter _ h := by cases h
  cached _ h := by cases h
  last := rfl
  chain := List.isChain_nil
  known _ h := by cases h
  files _ h := by cases h
  requests _ h := by cases h

/-- Records that are told apart by the time at which they ended. -/
def endTimes : Library ℕ String ℕ String where
  params r := { endTimeMillis := some r }
  serialize proto := proto
  compress data := data

omit [DecidableEq V] in
theorem upload_apply {s : State R P V B E} (upload : Upload E) (x : R × Envelope B) :
    (do
      Act.modify fun s ↦ { s with requests := s.requests ++ List.replicate upload.requests x }
      let result ← Act.ofExcept upload.result
      Act.modify fun s ↦ { s with uploadResult := some result } : Act (State R P V B E) (Error E) Unit) s =
      (upload.result.map fun _ ↦ (), { s with
        requests := s.requests ++ List.replicate upload.requests x
        uploadResult := upload.result.toOption.or s.uploadResult }) := by
  simp only [Act.bind_apply, Act.modify_apply, Act.andThen, Act.ofExcept_apply]
  cases upload.result <;> rfl

/-- A converted record is sent as often as the server makes it worth another attempt, five
times at most.  The result is that of the first conclusive attempt, whose exception leaves
the result of an earlier upload in place, or an empty one if none was conclusive. -/
theorem uploadCallback_spec {t : State R P V B E} (payloadType : String) (server : ℕ → Reply E)
    (hconvert : convert lib r s = (.ok proto, t)) :
    let out := uploadCallback lib payloadType server r s
    let x := (r, envelope lib payloadType proto)
    (∃ k < MAX_UPLOAD_ATTEMPTS, (∀ j < k, Transient (server (1 + j))) ∧ ¬Transient (server (1 + k)) ∧
        out.1 = (sendRequest (server (1 + k))).map (fun _ ↦ ()) ∧
        out.2.requests = t.requests ++ List.replicate (k + 1) x ∧
        out.2.uploadResult = (sendRequest (server (1 + k))).toOption.or t.uploadResult) ∨
      ((∀ j < MAX_UPLOAD_ATTEMPTS, Transient (server (1 + j))) ∧ out.1 = .ok () ∧
        out.2.requests = t.requests ++ List.replicate MAX_UPLOAD_ATTEMPTS x ∧
        out.2.uploadResult = some (.object [])) := by
  intro out x
  have hout : out = ((sendData server).result.map fun _ ↦ (), { t with
      requests := t.requests ++ List.replicate (sendData server).requests x
      uploadResult := (sendData server).result.toOption.or t.uploadResult }) := by
    rw [← upload_apply]
    simp only [out, uploadCallback, Act.bind_apply, hconvert, Act.andThen]
    rfl
  rw [hout]
  obtain ⟨k, hk, hall, hnot, heq⟩ | ⟨hall, heq⟩ := sendLoop_spec server 1 MAX_UPLOAD_ATTEMPTS (Nat.add_comm _ _)
  · rw [sendData, heq]
    exact .inl ⟨k, hk, hall, hnot, rfl, rfl, rfl⟩
  · rw [sendData, heq]
    exact .inr ⟨hall, rfl, rfl, rfl⟩

/-- The server fails twice and then rejects the record. -/
theorem uploadCallback_spec_rejected :
    let server (attempt : ℕ) : Reply Unit := if attempt < 3 then .requestFailed else .json 400 (.object [])
    let s : State ℕ String ℕ String Unit := { converter := some fun r ↦ .ok (toString r) }
    let out := uploadCallback endTimes "TEST_RUN" server 1 s
    let x := (1, envelope endTimes "TEST_RUN" "1")
    (∃ k < MAX_UPLOAD_ATTEMPTS, (∀ j < k, Transient (server (1 + j))) ∧ ¬Transient (server (1 + k)) ∧
        out.1 = (sendRequest (server (1 + k))).map (fun _ ↦ ()) ∧
        out.2.requests = [] ++ List.replicate (k + 1) x ∧
        out.2.uploadResult = (sendRequest (server (1 + k))).toOption.or none) ∨
      ((∀ j < MAX_UPLOAD_ATTEMPTS, Transient (server (1 + j))) ∧ out.1 = .ok () ∧
        out.2.requests = [] ++ List.replicate MAX_UPLOAD_ATTEMPTS x ∧
        out.2.uploadResult = some (.object [])) := by
  intro server s out x
  have hconvert : convert endTimes 1 s = (.ok "1", s.cache endTimes 1 "1") := rfl
  exact uploadCallback_spec "TEST_RUN" server hconvert

end Cache

end OpenHtf.MfgInspector
