import OpenHtf.RunRules

/-!
# Output callbacks and the caches of the record

`json_factory.convert_test_record_to_json` and the callbacks that serialise a
test record as JSON.  What `as_base_types` returns are the cached dicts
themselves, so inlining attachments into it writes to the caches.
-/

set_option autoImplicit false

namespace OpenHtf

/-! ## The conversion -/

/-- The assignments `phase['attachments'][name] = attachment`. -/
def PhaseDict.inlineAttachments (d : PhaseDict) (p : PhaseRecord) : PhaseDict :=
  { d with attachments :=
      dictUpdate (p.attachments.map fun item ↦ (item.1, .object item.2)) d.attachments }

/-- The loop over `zip(as_dict['phases'], test_rec.phases)`. -/
def inlinePhases : List PhaseDict → List PhaseRecord → List PhaseDict
  | d :: ds, p :: ps => d.inlineAttachments p :: inlinePhases ds ps
  | ds, _ => ds

/-- `convert_test_record_to_json`: the dict and the record as it is afterwards.
`allow_nan` is passed on to a conversion that the record's own overrides. -/
def convertTestRecordToJson (r : TestRecord) (inlineAttachments _allowNan : Bool) :
    TestRecordDict × TestRecord :=
  let r := if inlineAttachments then { r with cachedPhases := inlinePhases r.cachedPhases r.phases } else r
  (r.asBaseTypes, r)

/-! ## Encoders -/

/-- An attachment in a JSON text, with its data if they are there. -/
structure JsonAttachment where
  mimetype : Option String
  sha1 : String
  data : Option (List UInt8) := none
  deriving DecidableEq

/-- What a JSON text says: the dict, and the attachments of each phase. -/
structure JsonRecord where
  record : TestRecordDict
  attachments : List (List (String × JsonAttachment))
  deriving DecidableEq

/-- `JSONEncoder.encode`; `default` is asked about what is not of a base type. -/
def encodeJson (default : Attachment → Except PyExc JsonAttachment) (d : TestRecordDict) :
    Except PyExc JsonRecord := do
  let attachments ← d.phases.mapM fun p ↦ p.attachments.mapM fun item ↦ do
    match item.2 with
    | .dict mimetype sha1 => pure (item.1, { mimetype := mimetype, sha1 := sha1 })
    | .object a => pure (item.1, ← default a)
  pure { record := { d with phases := d.phases.map ({ · with attachments := [] }) }, attachments := attachments }

/-- `TestRecordEncoder.default`. -/
def testRecordEncoderDefault (a : Attachment) : Except PyExc JsonAttachment :=
  .ok { mimetype := a.mimetype, sha1 := a.sha1, data := some a.data }

/-- `unsupported_type_handler`; the object is written without its file. -/
def unsupportedTypeHandler (a : Attachment) : Except PyExc JsonAttachment :=
  .error (.ofClass .TypeError s!"Attachment(sha1={a.sha1}) is not JSON serializable")

/-! ## Callbacks -/

/-- The callbacks that serialise the record as JSON: `OutputToJSON`,
`test_runs_converter._attach_json` and `mfg_event_converter._attach_record_as_json`. -/
inductive OutputCallback where
  | outputToJson (inlineAttachments allowNan : Bool)
  | testRuns
  | mfgEvent

/-- What the callback serialises, and the record that it leaves. -/
def OutputCallback.call : OutputCallback → TestRecord → Except PyExc JsonRecord × TestRecord
  | outputToJson inlineAttachments allowNan, r =>
      let (d, r') := convertTestRecordToJson r inlineAttachments allowNan
      (encodeJson testRecordEncoderDefault d, r')
  | testRuns, r =>
      let (d, r') := convertTestRecordToJson r false false
      (encodeJson testRecordEncoderDefault d, r')
  | mfgEvent, r => (encodeJson unsupportedTypeHandler r.asBaseTypes, r)

/-! ## What the conversion leaves as it was -/

namespace PhaseDict

/-- The attachments of the phase are there as objects already. -/
def HasInlined (d : PhaseDict) (p : PhaseRecord) : Prop :=
  ∀ item ∈ p.attachments, d.attachments.lookup item.1 = some (.object item.2)

theorem inlineAttachments_eq_self_iff {d : PhaseDict} {p : PhaseRecord} :
    d.inlineAttachments p = d ↔ d.HasInlined p := by
  have hnodup : ((p.attachments.map fun item ↦
      ((item.1, .object item.2) : String × AttachmentEntry)).map Prod.fst).Nodup := by
    simpa [List.map_map, Function.comp_def] using p.attachments_nodup
  have hupdate := dictUpdate_eq_self_iff d.attachments hnodup
  rw [List.forall_mem_map] at hupdate
  refine Iff.trans ⟨fun h ↦ ?_, fun h ↦ ?_⟩ hupdate
  · exact congrArg PhaseDict.attachments h
  · rw [inlineAttachments, h]

/-- The entries of a dict that was converted from a record are no objects. -/
theorem hasInlined_asBaseTypes {p : PhaseRecord} : p.asBaseTypes.HasInlined p ↔ p.attachments = [] := by
  constructor
  · intro h
    have hlookup (k : String) (a : Attachment) (items : List (String × Attachment)) :
        (items.map fun item ↦ (item.1, item.2.asDict)).lookup k ≠ some (.object a) := by
      induction items with
      | nil => simp
      | cons item items ih =>
          rw [List.map_cons, lookup_cons_eq]
          split
          · simp [Attachment.asDict]
          · exact ih
    refine List.eq_nil_iff_forall_not_mem.mpr fun item hitem ↦ ?_
    exact hlookup _ _ _ (h item hitem)
  · intro h item hitem
    rw [h] at hitem
    cases hitem

end PhaseDict

theorem inlinePhases_eq_self_iff {ds : List PhaseDict} {ps : List PhaseRecord} :
    inlinePhases ds ps = ds ↔ ∀ item ∈ ds.zip ps, item.1.HasInlined item.2 := by
  induction ds generalizing ps with
  | nil => simp [inlinePhases]
  | cons d ds ih =>
      cases ps with
      | nil => simp [inlinePhases]
      | cons p ps =>
          rw [inlinePhases, List.cons.injEq, PhaseDict.inlineAttachments_eq_self_iff, ih,
            List.zip_cons_cons, List.forall_mem_cons]

namespace TestRecord

/-- The cached dicts hold the attachments of the phases as objects. -/
def AttachmentsInlined (r : TestRecord) : Prop :=
  ∀ item ∈ r.cachedPhases.zip r.phases, item.1.HasInlined item.2

/-- The cached attachments are as they were converted. -/
def AttachmentsConverted (r : TestRecord) : Prop :=
  r.cachedPhases.map (·.attachments) = r.phases.map (·.asBaseTypes.attachments)

/-- In a record whose caches are as they were made, nothing is inlined. -/
theorem attachmentsInlined_iff {r : TestRecord} (h : r.AttachmentsConverted) :
    r.AttachmentsInlined ↔ ∀ p ∈ r.phases, p.attachments = [] := by
  unfold AttachmentsConverted at h
  unfold AttachmentsInlined
  generalize r.cachedPhases = ds at h
  generalize r.phases = ps at h
  induction ds generalizing ps with
  | nil =>
      rw [List.map_nil, eq_comm, List.map_eq_nil_iff] at h
      simp [h]
  | cons d ds ih =>
      cases ps with
      | nil => cases h
      | cons p ps =>
          obtain ⟨hd, hds⟩ := List.cons.inj h
          have hsame : d.HasInlined p ↔ p.asBaseTypes.HasInlined p := by
            have hattachments : d.attachments = p.asBaseTypes.attachments := hd
            rw [PhaseDict.HasInlined, PhaseDict.HasInlined, hattachments]
          rw [List.zip_cons_cons, List.forall_mem_cons, List.forall_mem_cons, ih ps hds, hsame,
            PhaseDict.hasInlined_asBaseTypes]

/-- The conversion makes no difference to what comes after it: to a conversion to
base types, or to a callback, which is a function of the record. -/
structure UnaffectedByJson (r : TestRecord) (inlineAttachments allowNan : Bool) : Prop where
  conversion : (convertTestRecordToJson r inlineAttachments allowNan).2.asBaseTypes = r.asBaseTypes
  callback : ∀ {α : Type} (cb : TestRecord → α),
    cb (convertTestRecordToJson r inlineAttachments allowNan).2 = cb r

end TestRecord

theorem convertTestRecordToJson_eq_self_iff (r : TestRecord) (inlineAttachments allowNan : Bool) :
    (convertTestRecordToJson r inlineAttachments allowNan).2 = r ↔
      (inlineAttachments = true → r.AttachmentsInlined) := by
  cases inlineAttachments with
  | false => simp [convertTestRecordToJson]
  | true =>
      rw [TestRecord.AttachmentsInlined, ← inlinePhases_eq_self_iff]
      refine ⟨fun h _ ↦ congrArg TestRecord.cachedPhases h, fun h ↦ ?_⟩
      simp [convertTestRecordToJson, h rfl]

/-- The conversion to JSON affects nothing if and only if it does not inline, or
has nothing to inline that is not inlined yet. -/
theorem unaffectedByJson_iff (r : TestRecord) (inlineAttachments allowNan : Bool) :
    r.UnaffectedByJson inlineAttachments allowNan ↔
      (inlineAttachments = true → r.AttachmentsInlined) := by
  rw [← convertTestRecordToJson_eq_self_iff r inlineAttachments allowNan]
  constructor
  · exact fun h ↦ h.callback fun r ↦ r
  · exact fun h ↦ ⟨by rw [h], fun cb ↦ by rw [h]⟩

/-- A record of one phase with an attachment. -/
def recordWithAttachment : TestRecord :=
  ({} : TestRecord).addPhaseRecord
    { descriptorId := 0, name := "measure", attachments := [("log", ⟨some "text/plain", "da39", [104, 105]⟩)] }

/-- After a JSON callback with inlined attachments the callback that attaches the
record to an `MfgEvent` fails. -/
theorem not_unaffectedByJson_inline :
    ¬recordWithAttachment.UnaffectedByJson true false := by
  intro h
  have hcall := h.callback fun r ↦ (OutputCallback.mfgEvent.call r).1
  have hbefore : (OutputCallback.mfgEvent.call recordWithAttachment).1.isOk = true := by decide +kernel
  have hafter : (OutputCallback.mfgEvent.call
      (convertTestRecordToJson recordWithAttachment true false).2).1.isOk = false := by decide +kernel
  rw [hcall, hbefore] at hafter
  cases hafter

/-! ## Several callbacks -/

/-- `execute` runs the callbacks one after the other on the same record. -/
def runCallbacks : List OutputCallback → TestRecord → List (Except PyExc JsonRecord)
  | [], _ => []
  | cb :: cbs, r =>
      let (text, r') := cb.call r
      text :: runCallbacks cbs r'

def OutputCallback.inlines : OutputCallback → Bool
  | outputToJson inlineAttachments _ => inlineAttachments
  | testRuns => false
  | mfgEvent => false

theorem OutputCallback.call_record {cb : OutputCallback} {r : TestRecord}
    (h : cb.inlines = true → r.AttachmentsInlined) : (cb.call r).2 = r := by
  cases cb with
  | outputToJson inlineAttachments allowNan =>
      exact (convertTestRecordToJson_eq_self_iff r inlineAttachments allowNan).mpr h
  | testRuns => rfl
  | mfgEvent => rfl

/-- When there is nothing to inline, every callback serialises what it would
serialise alone, whatever the order. -/
theorem runCallbacks_eq_map (cbs : List OutputCallback) {r : TestRecord}
    (h : ∀ cb ∈ cbs, cb.inlines = true → r.AttachmentsInlined) :
    runCallbacks cbs r = cbs.map fun cb ↦ (cb.call r).1 := by
  induction cbs with
  | nil => rfl
  | cons cb cbs ih =>
      have hsame := OutputCallback.call_record (h cb List.mem_cons_self)
      change (cb.call r).1 :: runCallbacks cbs (cb.call r).2 = _
      rw [hsame, ih fun cb' hcb' ↦ h cb' (List.mem_cons_of_mem _ hcb'), List.map_cons]

/-! ## The record of a run -/

open Act

/-- The cached attachments are as they were converted. -/
def RunState.AttachmentsConverted (s : RunState) : Prop := s.testRecord.AttachmentsConverted

/-- The outcome of the last record is changed. -/
theorem TestRecord.AttachmentsConverted.changeLast {r : TestRecord} {last : PhaseRecord}
    (h : r.AttachmentsConverted) (hl : r.phases.getLast? = some last) (o : Option PhaseOutcome) :
    ({ r with phases := r.phases.dropLast ++ [{ last with outcome := o }] } :
      TestRecord).AttachmentsConverted := by
  obtain ⟨init, hphases⟩ := List.getLast?_eq_some_iff.mp hl
  unfold AttachmentsConverted at h ⊢
  rw [h, hphases, List.dropLast_concat, List.map_append, List.map_append]
  rfl

theorem writesKept_attachmentsConverted (env : Env) :
    WritesKept env (Preserves RunState.AttachmentsConverted) where
  shared _ _ h := h
  noteThread _ _ h := h
  callUser _ _ h := h
  noteStep _ _ _ h := h
  phaseState _ _ h := h
  addPhaseRecord s h := by
    have hadd : (s.testRecord.addPhaseRecord s.phaseState.phaseRecord).AttachmentsConverted := by
      have hold : s.testRecord.AttachmentsConverted := h
      unfold TestRecord.AttachmentsConverted at hold ⊢
      simp [TestRecord.addPhaseRecord, hold]
    exact hadd
  addSubtestRecord _ _ h := h
  addBranchRecord _ _ h := h
  addCheckpointRecord _ _ h := h
  recordDiagnosis _ _ h := h
  storeDiagnosis _ _ h := h
  skipLast _ _ hl _ h := TestRecord.AttachmentsConverted.changeLast h hl _

theorem attachmentsConverted_of_lasting {s : RunState} {f : TestState → TestState}
    (h : s.AttachmentsConverted) (hf : (f s.testState).lasting = s.testState.lasting) :
    (s.mapTestState f).AttachmentsConverted := by
  have hphases := congrArg (·.testRecord.phases) hf
  have hcached := congrArg (·.testRecord.cachedPhases) hf
  unfold RunState.AttachmentsConverted TestRecord.AttachmentsConverted at h ⊢
  exact (congrArg (List.map _) hcached).trans (h.trans (congrArg (List.map _) hphases).symm)

/-- The record that a run leaves is not affected by a conversion to JSON if and
only if that does not inline or there are no attachments. -/
theorem unaffectedByJson_final_iff (env : Env) (test : Test) (abortCalls : ℕ)
    (inlineAttachments allowNan : Bool) :
    let r := (World.final env test abortCalls).run.testRecord
    r.UnaffectedByJson inlineAttachments allowNan ↔
      (inlineAttachments = true → ∀ p ∈ r.phases, p.attachments = []) := by
  have hw := writesKept_attachmentsConverted env
  have hplugs (f : PlugManager → PlugManager) :
      Within (Preserves RunState.AttachmentsConverted) (mapPlugManager f) := .modify fun _ h ↦ h
  have hnote (x : Step) : Within (Preserves RunState.AttachmentsConverted) (noteStep x) :=
    .modify fun _ h ↦ h
  have hthread := hw.thread (fun x _ ↦ hnote x)
    (fun _ hf ↦ .modify fun s h ↦ attachmentsConverted_of_lasting h (hf s.testState))
    (within_initializePlugTypes (fun _ ↦ hnote _) hplugs hw.callUser
    (fun _ ↦ hnote _) fun _ _ ↦ hnote _) (within_tearDownPlugs (fun _ ↦ hnote _) hplugs)
  have hconverted : (World.final env test abortCalls).run.AttachmentsConverted := by
    rcases hthread.final test abortCalls with h | h
    · exact h ▸ rfl
    · exact h.run rfl
  intro r
  rw [unaffectedByJson_iff, TestRecord.attachmentsInlined_iff hconverted]

end OpenHtf
