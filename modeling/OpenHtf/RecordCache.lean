import OpenHtf.RunRules

/-!
# The caches of the test record

The converted records are cached when they are added.  They agree with the
records for as long as `_should_repeat` changes no record that is there already.
-/

set_option autoImplicit false

namespace OpenHtf

open Act

/-- The lists of `as_base_types` are the conversions of the records. -/
structure TestRecord.CacheAgrees (r : TestRecord) : Prop where
  phases : r.asBaseTypes.phases = r.phases.map (·.asBaseTypes)
  subtests : r.asBaseTypes.subtests = r.subtests.map (·.asBaseTypes)
  branches : r.asBaseTypes.branches = r.branches.map (·.asBaseTypes)
  diagnoses : r.asBaseTypes.diagnoses = r.diagnoses.map (·.asBaseTypes)
  logRecords : r.asBaseTypes.logRecords = r.logRecords

namespace TestRecord.CacheAgrees

variable {r : TestRecord}

theorem addPhaseRecord (h : r.CacheAgrees) (p : PhaseRecord) : (r.addPhaseRecord p).CacheAgrees :=
  { h with phases := by simpa [asBaseTypes, TestRecord.addPhaseRecord] using h.phases }

theorem addSubtestRecord (h : r.CacheAgrees) (s : SubtestRecord) : (r.addSubtestRecord s).CacheAgrees :=
  { h with subtests := by simpa [asBaseTypes, TestRecord.addSubtestRecord] using h.subtests }

theorem addBranchRecord (h : r.CacheAgrees) (b : BranchRecord) : (r.addBranchRecord b).CacheAgrees :=
  { h with branches := by simpa [asBaseTypes, TestRecord.addBranchRecord] using h.branches }

theorem addDiagnosis (h : r.CacheAgrees) (d : Diagnosis) : (r.addDiagnosis d).CacheAgrees :=
  { h with diagnoses := by simpa [asBaseTypes, TestRecord.addDiagnosis] using h.diagnoses }

theorem addLogRecord (h : r.CacheAgrees) (l : LogRecord) : (r.addLogRecord l).CacheAgrees :=
  { h with logRecords := by simpa [asBaseTypes, TestRecord.addLogRecord] using h.logRecords }

theorem addLogRecords (h : r.CacheAgrees) (ls : List LogRecord) :
    (ls.foldl TestRecord.addLogRecord r).CacheAgrees := by
  induction ls generalizing r with
  | nil => exact h
  | cons l ls ih => exact ih (h.addLogRecord l)

end TestRecord.CacheAgrees

/-- What starting and finishing a test writes is not cached. -/
theorem TestState.cacheAgrees_of_lasting {t t' : TestState} (h : t'.lasting = t.lasting) :
    t'.testRecord.CacheAgrees ↔ t.testRecord.CacheAgrees := by
  have key (t : TestState) : t.testRecord.CacheAgrees ↔ t.lasting.testRecord.CacheAgrees :=
    ⟨fun h ↦ ⟨h.phases, h.subtests, h.branches, h.diagnoses, h.logRecords⟩,
      fun h ↦ ⟨h.phases, h.subtests, h.branches, h.diagnoses, h.logRecords⟩⟩
  rw [key, h, ← key]

/-- The caches have agreed with the records in every state so far if and only if
no record has been changed. -/
structure CacheHistory (s : RunState) : Prop where
  changed : .lastPhaseRecordChanged ∈ s.steps → ∃ r ∈ s.records, ¬r.CacheAgrees
  kept : .lastPhaseRecordChanged ∉ s.steps →
    (∀ r ∈ s.records, r.CacheAgrees) ∧ s.testRecord.CacheAgrees

namespace CacheHistory

variable {s : RunState}

theorem of_eq {s' : RunState} (h : CacheHistory s) (hrecords : s'.records = s.records)
    (hrecord : s'.testRecord = s.testRecord)
    (hsteps : .lastPhaseRecordChanged ∈ s'.steps ↔ .lastPhaseRecordChanged ∈ s.steps) :
    CacheHistory s' :=
  ⟨fun hc ↦ hrecords ▸ h.changed (hsteps.mp hc),
    fun hk ↦ hrecords ▸ hrecord ▸ h.kept fun hc ↦ hk (hsteps.mpr hc)⟩

theorem addStep (h : CacheHistory s) {x : Step} (hx : x ≠ .lastPhaseRecordChanged) :
    CacheHistory (s.addStep x) := by
  refine h.of_eq rfl rfl ?_
  simp [RunState.addStep, hx.symm]

/-- A write after which the caches agree if they did before. -/
theorem mapTestState (h : CacheHistory s) {f : TestState → TestState}
    (hf : s.testRecord.CacheAgrees → (f s.testState).testRecord.CacheAgrees) :
    CacheHistory (s.mapTestState f) := by
  refine ⟨fun hc ↦ ?_, fun hk ↦ ?_⟩
  · obtain ⟨r, hr, hbad⟩ := h.changed hc
    exact ⟨r, List.mem_append_left _ hr, hbad⟩
  · obtain ⟨hrecords, hrecord⟩ := h.kept hk
    refine ⟨fun r hr ↦ ?_, hf hrecord⟩
    rcases List.mem_append.mp hr with hr | hr
    · exact hrecords r hr
    · obtain rfl := List.mem_singleton.mp hr
      exact hf hrecord

theorem mapTestRecord (h : CacheHistory s) {f : TestRecord → TestRecord}
    (hf : s.testRecord.CacheAgrees → (f s.testRecord).CacheAgrees) :
    CacheHistory (s.mapTestRecord f) := h.mapTestState hf

theorem skipLast (h : CacheHistory s) {last : PhaseRecord}
    (hlast : s.testRecord.phases.getLast? = some last) (hfail : last.outcome = some .FAIL) :
    CacheHistory (s.skipLast last) := by
  refine ⟨fun _ ↦ ?_, fun hk ↦ absurd ?_ hk⟩
  · by_cases hc : .lastPhaseRecordChanged ∈ s.steps
    · obtain ⟨r, hr, hbad⟩ := h.changed hc
      exact ⟨r, List.mem_append_left _ hr, hbad⟩
    · obtain ⟨init, hphases⟩ := List.getLast?_eq_some_iff.mp hlast
      refine ⟨_, List.mem_append_right _ (List.mem_singleton_self _), fun hagree ↦ ?_⟩
      have hold := (h.kept hc).2.phases
      have hnew : s.testRecord.cachedPhases =
          ((init ++ [last]).dropLast ++ [{ last with outcome := some .SKIP }]).map
            PhaseRecord.asBaseTypes :=
        hphases ▸ hagree.phases
      have hold : s.testRecord.cachedPhases = (init ++ [last]).map (·.asBaseTypes) := hphases ▸ hold
      rw [hold, List.dropLast_concat, List.map_append, List.map_append] at hnew
      have houtcome := congrArg PhaseDict.outcome (List.singleton_inj.mp (List.append_cancel_left hnew))
      simp [PhaseRecord.asBaseTypes, hfail, PhaseOutcome.name] at houtcome
  · simp [RunState.skipLast, RunState.mapTestRecord, RunState.mapTestState, RunState.addStep]

end CacheHistory

theorem writesKept_cacheHistory (env : Env) : WritesKept env (Preserves CacheHistory) where
  shared _ _ h := h.of_eq rfl rfl Iff.rfl
  noteThread _ _ h := h.of_eq rfl rfl Iff.rfl
  callUser _ _ h := h.of_eq rfl rfl Iff.rfl
  noteStep x hx := .modify fun _ h ↦ h.addStep (by
    rintro rfl
    cases hx)
  phaseState _ _ h := h.of_eq rfl rfl Iff.rfl
  addPhaseRecord := .modify fun _ h ↦ h.mapTestRecord (·.addPhaseRecord _)
  addSubtestRecord r := .modify fun _ h ↦ h.mapTestRecord (·.addSubtestRecord r)
  addBranchRecord r := .modify fun _ h ↦ h.mapTestRecord (·.addBranchRecord r)
  addCheckpointRecord _ := .modify fun _ h ↦ h.mapTestRecord fun ha ↦
    ⟨ha.phases, ha.subtests, ha.branches, ha.diagnoses, ha.logRecords⟩
  recordDiagnosis d := .modify fun _ h ↦ h.mapTestRecord (·.addDiagnosis d)
  storeDiagnosis _ := .modify fun _ h ↦ h.mapTestState id
  skipLast _ _ hl hf h := h.skipLast hl hf

theorem threadKept_cacheHistory (env : Env) :
    ThreadKept env (Preserves CacheHistory) (World.OnRun (Preserves CacheHistory)) := by
  have hnote (p : PlugInstance) : Within (Preserves CacheHistory) (noteStep (.plugTornDown p)) :=
    .modify fun _ h ↦ h.addStep nofun
  have hmap (f : PlugManager → PlugManager) : Within (Preserves CacheHistory) (mapPlugManager f) :=
    .modify fun _ h ↦ h.mapTestState id
  have hw := writesKept_cacheHistory env
  have hfinal (x : Step) (hx : x.isFinalisation = true) : Within (Preserves CacheHistory) (noteStep x) :=
    .modify fun _ h ↦ h.addStep (by
      rintro rfl
      cases hx)
  refine hw.thread hfinal (fun _ hf ↦ .modify fun _ h ↦
    h.mapTestState (TestState.cacheAgrees_of_lasting (hf _)).mpr) ?_ (within_tearDownPlugs hnote hmap)
  exact within_initializePlugTypes hnote hmap hw.callUser (fun _ ↦ hw.noteStep _ rfl)
    fun _ _ ↦ .modify fun _ h ↦ h.addStep nofun

theorem cacheHistory_final (env : Env) (test : Test) (abortCalls : ℕ) :
    CacheHistory (World.final env test abortCalls).run := by
  have hagree : (({} : TestRecord)).CacheAgrees := ⟨rfl, rfl, rfl, rfl, rfl⟩
  have hinitial : CacheHistory (World.initial test abortCalls).run := ⟨nofun, fun _ ↦ ⟨nofun, hagree⟩⟩
  have hcreated : CacheHistory ((World.initial test abortCalls).withTestState test).run :=
    hinitial.mapTestState (f := fun _ ↦ { plugManager := { plugTypes := test.plugTypes } }) fun _ ↦ hagree
  rcases (threadKept_cacheHistory env).final test abortCalls with h | h
  · exact h ▸ hinitial
  · exact h.run hcreated

/-- A test of one phase that leaves its measurement unset and may be repeated. -/
def unsetMeasurementTest : Test where
  phaseSequence := .mk .plain none [.phase {
    id := 0
    name := "measure"
    options := { repeatOnMeasurementFail := true }
    measurements := [{ name := "voltage" }] }]

end OpenHtf
