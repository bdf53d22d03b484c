import Mathlib.Data.List.Nodup
import Mathlib.Logic.Function.Basic
import OpenHtf.Lib.Interleaving

/-!
# Where log records go

`logs.RecordHandler`: each running test has a handler on the top-level logger, which
keeps the records of its own loggers and of the framework.  Any number of threads log,
and tests begin and end, while `callHandlers` and `remove_record_handler` walk over the
list of handlers by index.
-/

set_option autoImplicit false

namespace OpenHtf.LogRouting

/-! ## The model -/

/-- `re.match` of a text that has only letters, underscores and unescaped dots: what is
left of the string. -/
def matchText : List Char → List Char → Option (List Char)
  | [], cs => some cs
  | p :: ps, c :: cs => if p = '.' ∧ c ≠ '\n' ∨ p = c then matchText ps cs else none
  | _ :: _, [] => none

def recordLoggerPrefix : String := "openhtf.test_record"

/-- The group `test_uid` of `RECORD_LOGGER_RE`, where that matches the name of a logger. -/
def recordLoggerUid (name : String) : Option String :=
  match matchText recordLoggerPrefix.toList name.toList with
  | some ('.' :: cs) => some (String.ofList (cs.takeWhile (· ≠ '.')))
  | _ => none

/-- `TestUidFilter.filter`. -/
def testUidFilter (uid name : String) : Bool :=
  match recordLoggerUid name with
  | none => true
  | some uid' => uid' = uid

/-- The name of the logger that `get_record_logger_for` returns. -/
def getRecordLoggerFor (uid : String) : String := recordLoggerPrefix ++ "." ++ uid

/-- The name of the logger that `getChild` returns. -/
def getChild (name suffix : String) : String := name ++ "." ++ suffix

/-- The handlers of the top-level logger: those of tests, and those that
`configure_logging` and others add. -/
inductive Handler where
  | record (uid : String)
  | other (n : ℕ)
  deriving DecidableEq

structure LogRecord where
  name : String
  message : String
  deriving DecidableEq

/-- Where a thread is in `callHandlers`, before it takes the next handler and with a
handler in its hands, and in `remove_record_handler`. -/
inductive Pc where
  | idle
  | dispatching (r : LogRecord) (i : ℕ)
  | handling (r : LogRecord) (i : ℕ) (h : Handler)
  | searching (uid : String) (i : ℕ)
  | removing (h : Handler)
  deriving DecidableEq

/-- `known` has every handler that there has been, `logged` every record that was
logged and by whom. -/
structure State (κ : Type) where
  handlers : List Handler := []
  known : List Handler := []
  records : String → List (κ × LogRecord) := fun _ ↦ []
  logged : List (κ × LogRecord) := []
  pc : κ → Pc := fun _ ↦ .idle

inductive Action (κ : Type) where
  | addHandler (h : Handler)
  | log (k : κ) (r : LogRecord)
  | remove (k : κ) (uid : String)
  | step (k : κ)
  deriving DecidableEq

section Model

variable {κ : Type} [DecidableEq κ]

def State.setPc (k : κ) (pc : Pc) (s : State κ) : State κ := { s with pc := Function.update s.pc k pc }

/-- `Handler.handle`: its filters, and `emit`. -/
def handle (k : κ) (r : LogRecord) (s : State κ) : Handler → State κ
  | .record uid =>
    if testUidFilter uid r.name then
      { s with records := Function.update s.records uid (s.records uid ++ [(k, r)]) }
    else s
  | .other _ => s

/-- The next step of a thread; both loops are over the list as it is. -/
def threadStep (k : κ) (s : State κ) : Option (State κ) :=
  match s.pc k with
  | .idle => none
  | .dispatching r i =>
    match s.handlers[i]? with
    | none => some (s.setPc k .idle)
    | some h => some (s.setPc k (.handling r (i + 1) h))
  | .handling r i h => some ((handle k r s h).setPc k (.dispatching r i))
  | .searching uid i =>
    match s.handlers[i]? with
    | none => some (s.setPc k .idle)
    | some h => some (s.setPc k (if h = .record uid then .removing h else .searching uid (i + 1)))
  | .removing h => some ({ s with handlers := s.handlers.erase h }.setPc k .idle)

/-- Each handler is added once, as the uids of tests are unique. -/
def step (s : State κ) : Action κ → Option (State κ)
  | .addHandler h =>
    if h ∉ s.known then some { s with handlers := s.handlers ++ [h], known := s.known ++ [h] } else none
  | .log k r =>
    if s.pc k = .idle then some ({ s with logged := s.logged ++ [(k, r)] }.setPc k (.dispatching r 0)) else none
  | .remove k uid => if s.pc k = .idle then some (s.setPc k (.searching uid 0)) else none
  | .step k => threadStep k s

end Model

/-! ## The filter -/

theorem matchText_append (ps cs : List Char) (hps : '\n' ∉ ps) : matchText ps (ps ++ cs) = some cs := by
  induction ps with
  | nil => rfl
  | cons p ps ih => simpa [matchText] using ih fun h ↦ hps (List.mem_cons_of_mem p h)

/-- A logger below that of a test has the name of that, or goes on with a dot. -/
theorem exists_foldl_getChild (name : String) (suffixes : List String) :
    ∃ cs : List Char, (suffixes.foldl getChild name).toList = name.toList ++ cs ∧ (cs = [] ∨ cs.head? = some '.') := by
  induction suffixes generalizing name with
  | nil => exact ⟨[], by simp, .inl rfl⟩
  | cons suffix suffixes ih =>
      obtain ⟨cs, hcs, -⟩ := ih (getChild name suffix)
      refine ⟨'.' :: (suffix.toList ++ cs), ?_, .inr rfl⟩
      rw [List.foldl_cons, hcs]
      simp [getChild]

/-- The loggers of a test carry its uid. -/
theorem recordLoggerUid_foldl_getChild {uid : String} (huid : '.' ∉ uid.toList) (suffixes : List String) :
    recordLoggerUid (suffixes.foldl getChild (getRecordLoggerFor uid)) = some uid := by
  obtain ⟨cs, hcs, hhead⟩ := exists_foldl_getChild (getRecordLoggerFor uid) suffixes
  have hname : (suffixes.foldl getChild (getRecordLoggerFor uid)).toList =
      recordLoggerPrefix.toList ++ '.' :: (uid.toList ++ cs) := by
    rw [hcs]
    simp [getRecordLoggerFor]
  have htake : (uid.toList ++ cs).takeWhile (· ≠ '.') = uid.toList := by
    rw [List.takeWhile_append_of_pos fun c hc ↦ by simpa using ne_of_mem_of_not_mem hc huid]
    obtain rfl | hhead := hhead
    · simp
    · cases cs with
      | nil => simp
      | cons c cs =>
          obtain rfl : c = '.' := by simpa using hhead
          simp
  rw [recordLoggerUid, hname, matchText_append _ _ (by decide)]
  exact congrArg some ((congrArg String.ofList htake).trans String.ofList_toList)

/-! ## What a record has -/

section Routing

variable {κ : Type} [DecidableEq κ]

/-- What a thread has logged, or what it has put into the record of a test. -/
def of (k : κ) (l : List (κ × LogRecord)) : List (κ × LogRecord) := l.filter (·.1 = k)

/-- A record that is being logged has not yet been put where a handler is still ahead. -/
structure Dispatch (s : State κ) (k : κ) (r : LogRecord) (ahead : List Handler) : Prop where
  last : ∃ init, of k s.logged = init ++ [(k, r)] ∧
    ∀ uid, .record uid ∈ ahead → (of k (s.records uid)).Sublist init

structure Inv (s : State κ) : Prop where
  nodup : s.handlers.Nodup
  known : s.handlers ⊆ s.known
  empty : ∀ uid, .record uid ∉ s.known → s.records uid = []
  filtered : ∀ uid, ∀ p ∈ s.records uid, testUidFilter uid p.2.name = true
  sublist : ∀ uid k, (of k (s.records uid)).Sublist (of k s.logged)
  dispatching : ∀ k r i, s.pc k = .dispatching r i → Dispatch s k r (s.handlers.drop i)
  handling : ∀ k r i h, s.pc k = .handling r i h →
    Dispatch s k r (h :: s.handlers.drop i) ∧ h ∉ s.handlers.drop i ∧ h ∈ s.known

theorem Dispatch.mono {s s' : State κ} {k : κ} {r : LogRecord} {ahead ahead' : List Handler}
    (h : Dispatch s k r ahead) (hlogged : of k s'.logged = of k s.logged)
    (hrecords : ∀ uid, .record uid ∈ ahead' →
      (.record uid ∈ ahead ∧ of k (s'.records uid) = of k (s.records uid)) ∨ s'.records uid = []) :
    Dispatch s' k r ahead' := by
  obtain ⟨init, hinit, hsub⟩ := h.last
  refine ⟨init, hlogged.trans hinit, fun uid huid ↦ ?_⟩
  obtain ⟨huid, heq⟩ | hnil := hrecords uid huid
  · rw [heq]
    exact hsub uid huid
  · rw [hnil]
    exact List.nil_sublist _

theorem inv_initial : Inv ({} : State κ) := by
  constructor <;> simp [of]

variable {s s' : State κ} {k : κ}

/-- A thread moves on, with the handlers and records as they are. -/
theorem Inv.setPc (h : Inv s) {pc : Pc} (hdispatching : ∀ r i, pc = .dispatching r i → Dispatch s k r (s.handlers.drop i))
    (hhandling : ∀ r i g, pc = .handling r i g →
      Dispatch s k r (g :: s.handlers.drop i) ∧ g ∉ s.handlers.drop i ∧ g ∈ s.known) : Inv (s.setPc k pc) := by
  have hpc {j : κ} {pc' : Pc} (hj : (s.setPc k pc).pc j = pc') : j = k ∧ pc = pc' ∨ s.pc j = pc' := by
    by_cases hjk : j = k
    · subst hjk
      exact .inl ⟨rfl, (Function.update_self ..).symm.trans hj⟩
    · exact .inr ((Function.update_of_ne hjk ..).symm.trans hj)
  refine ⟨h.nodup, h.known, h.empty, h.filtered, h.sublist, fun j r i hj ↦ ?_, fun j r i g hj ↦ ?_⟩
  · obtain ⟨rfl, hpc'⟩ | hj := hpc hj
    · exact { hdispatching r i hpc' with }
    · exact { h.dispatching j r i hj with }
  · obtain ⟨rfl, hpc'⟩ | hj := hpc hj
    · obtain ⟨hd, hrest⟩ := hhandling r i g hpc'
      exact ⟨{ hd with }, hrest⟩
    · obtain ⟨hd, hrest⟩ := h.handling j r i g hj
      exact ⟨{ hd with }, hrest⟩

theorem Inv.addHandler (hs : Inv s) {h : Handler} (hnew : h ∉ s.known) :
    Inv { s with handlers := s.handlers ++ [h], known := s.known ++ [h] } := by
  have hdrop {i : ℕ} {g : Handler} (hg : g ∈ (s.handlers ++ [h]).drop i) : g ∈ s.handlers.drop i ∨ g = h := by
    rw [List.drop_append] at hg
    obtain hg | hg := List.mem_append.mp hg
    · exact .inl hg
    · exact .inr (List.mem_singleton.mp (List.mem_of_mem_drop hg))
  have hempty (uid : String) (huid : .record uid = h) : s.records uid = [] :=
    hs.empty uid (huid ▸ hnew)
  constructor
  · exact List.nodup_append.mpr ⟨hs.nodup, List.nodup_singleton h, fun g hg g' hg' ↦ by
      rintro rfl
      exact hnew (List.mem_singleton.mp hg' ▸ hs.known hg)⟩
  · exact List.append_subset.mpr ⟨List.subset_append_of_subset_left _ hs.known, List.subset_append_right _ _⟩
  · exact fun uid huid ↦ hs.empty uid fun hmem ↦ huid (List.mem_append_left _ hmem)
  · exact hs.filtered
  · exact hs.sublist
  · intro k r i hk
    refine (hs.dispatching k r i hk).mono rfl fun uid huid ↦ ?_
    obtain huid | huid := hdrop huid
    · exact .inl ⟨huid, rfl⟩
    · exact .inr (hempty uid huid)
  · intro k r i g hk
    obtain ⟨hd, hg, hknown⟩ := hs.handling k r i g hk
    refine ⟨hd.mono rfl fun uid huid ↦ ?_, fun hmem ↦ ?_, List.mem_append_left _ hknown⟩
    · obtain huid | huid := List.mem_cons.mp huid
      · exact .inl ⟨huid ▸ List.mem_cons_self, rfl⟩
      · obtain huid | huid := hdrop huid
        · exact .inl ⟨List.mem_cons_of_mem _ huid, rfl⟩
        · exact .inr (hempty uid huid)
    · obtain hmem | rfl := hdrop hmem
      · exact hg hmem
      · exact hnew hknown

/-- A handler is taken out of the list. -/
theorem Inv.erase (hs : Inv s) (h : Handler) : Inv { s with handlers := s.handlers.erase h } := by
  have hdrop {i : ℕ} {g : Handler} (hg : g ∈ (s.handlers.erase h).drop i) : g ∈ s.handlers.drop i :=
    ((List.erase_sublist (a := h)).drop i).subset hg
  constructor
  · exact hs.nodup.erase h
  · exact fun g hg ↦ hs.known (List.mem_of_mem_erase hg)
  · exact hs.empty
  · exact hs.filtered
  · exact hs.sublist
  · exact fun k r i hk ↦ (hs.dispatching k r i hk).mono rfl fun uid huid ↦ .inl ⟨hdrop huid, rfl⟩
  · intro k r i g hk
    obtain ⟨hd, hg, hknown⟩ := hs.handling k r i g hk
    refine ⟨hd.mono rfl fun uid huid ↦ .inl ⟨?_, rfl⟩, fun hmem ↦ hg (hdrop hmem), hknown⟩
    obtain rfl | huid := List.mem_cons.mp huid
    · exact List.mem_cons_self
    · exact List.mem_cons_of_mem _ (hdrop huid)

theorem of_append_singleton (j : κ) (l : List (κ × LogRecord)) (r : LogRecord) :
    of j (l ++ [(k, r)]) = if k = j then of j l ++ [(k, r)] else of j l := by
  rw [of, List.filter_append]
  split_ifs with hjk <;> simp [of, hjk]

/-- A thread logs a record. -/
theorem Inv.log (h : Inv s) (r : LogRecord) :
    Inv ({ s with logged := s.logged ++ [(k, r)] }.setPc k (.dispatching r 0)) := by
  have hother {j : κ} (hjk : j ≠ k) : of j (s.logged ++ [(k, r)]) = of j s.logged := by
    rw [of_append_singleton, if_neg hjk.symm]
  have hself : of k (s.logged ++ [(k, r)]) = of k s.logged ++ [(k, r)] := by
    rw [of_append_singleton, if_pos rfl]
  refine ⟨h.nodup, h.known, h.empty, h.filtered, fun uid j ↦ ?_, fun j r' i hj ↦ ?_, fun j r' i g hj ↦ ?_⟩
  · change (of j (s.records uid)).Sublist (of j (s.logged ++ [(k, r)]))
    by_cases hjk : j = k
    · rw [hjk, hself]
      exact (h.sublist uid k).trans (List.sublist_append_left _ _)
    · rw [hother hjk]
      exact h.sublist uid j
  · by_cases hjk : j = k
    · subst hjk
      cases (Function.update_self ..).symm.trans hj
      exact ⟨of j s.logged, hself, fun uid _ ↦ h.sublist uid j⟩
    · have hd := h.dispatching j r' i ((Function.update_of_ne hjk ..).symm.trans hj)
      exact hd.mono (hother hjk) fun uid huid ↦ .inl ⟨huid, rfl⟩
  · by_cases hjk : j = k
    · subst hjk
      cases (Function.update_self ..).symm.trans hj
    · obtain ⟨hd, hrest⟩ := h.handling j r' i g ((Function.update_of_ne hjk ..).symm.trans hj)
      exact ⟨hd.mono (hother hjk) fun uid huid ↦ .inl ⟨huid, rfl⟩, hrest⟩

/-- A handler that keeps a record puts it into that of its test. -/
theorem Inv.emit (h : Inv s) {r : LogRecord} {i : ℕ} {uid : String} (hk : s.pc k = .handling r i (.record uid))
    (hfilter : testUidFilter uid r.name = true) :
    Inv (State.setPc k (.dispatching r i)
      { s with records := Function.update s.records uid (s.records uid ++ [(k, r)]) }) := by
  obtain ⟨hd, hnot, hknown⟩ := h.handling k r i _ hk
  obtain ⟨init, hinit, hsub⟩ := hd.last
  have hother {j : κ} (hjk : j ≠ k) (uid' : String) :
      of j (Function.update s.records uid (s.records uid ++ [(k, r)]) uid') = of j (s.records uid') := by
    by_cases huid : uid' = uid
    · subst huid
      rw [Function.update_self, of_append_singleton, if_neg hjk.symm]
    · rw [Function.update_of_ne huid]
  constructor
  · exact h.nodup
  · exact h.known
  · intro uid' huid'
    have hne : uid' ≠ uid := by
      rintro rfl
      exact huid' hknown
    exact (Function.update_of_ne hne ..).trans (h.empty uid' huid')
  · intro uid' p hp
    change p ∈ Function.update s.records uid (s.records uid ++ [(k, r)]) uid' at hp
    by_cases huid : uid' = uid
    · subst huid
      rw [Function.update_self, List.mem_append, List.mem_singleton] at hp
      obtain hp | rfl := hp
      · exact h.filtered uid' p hp
      · exact hfilter
    · rw [Function.update_of_ne huid] at hp
      exact h.filtered uid' p hp
  · intro uid' j
    change (of j (Function.update s.records uid (s.records uid ++ [(k, r)]) uid')).Sublist (of j s.logged)
    by_cases hjk : j = k
    · subst hjk
      by_cases huid : uid' = uid
      · subst huid
        rw [Function.update_self, of_append_singleton, if_pos rfl, hinit]
        exact (hsub uid' List.mem_cons_self).append_right _
      · rw [Function.update_of_ne huid]
        exact h.sublist uid' j
    · rw [hother hjk]
      exact h.sublist uid' j
  · intro j r' i' hj
    by_cases hjk : j = k
    · subst hjk
      cases (Function.update_self ..).symm.trans hj
      refine hd.mono rfl fun uid' huid' ↦ .inl ⟨List.mem_cons_of_mem _ huid', ?_⟩
      have hne : uid' ≠ uid := by
        rintro rfl
        exact hnot huid'
      exact congrArg (of j) (Function.update_of_ne hne ..)
    · have hd' := h.dispatching j r' i' ((Function.update_of_ne hjk ..).symm.trans hj)
      exact hd'.mono rfl fun uid' huid' ↦ .inl ⟨huid', hother hjk uid'⟩
  · intro j r' i' g hj
    by_cases hjk : j = k
    · subst hjk
      cases (Function.update_self ..).symm.trans hj
    · obtain ⟨hd', hrest⟩ := h.handling j r' i' g ((Function.update_of_ne hjk ..).symm.trans hj)
      exact ⟨hd'.mono rfl fun uid' huid' ↦ .inl ⟨huid', hother hjk uid'⟩, hrest⟩

theorem drop_of_getElem? {α : Type} {l : List α} {i : ℕ} {a : α} (h : l[i]? = some a) :
    l.drop i = a :: l.drop (i + 1) := by
  obtain ⟨hi, rfl⟩ := List.getElem?_eq_some_iff.mp h
  exact List.drop_eq_getElem_cons hi

theorem inv_threadStep (h : Inv s) (hstep : threadStep k s = some s') : Inv s' := by
  unfold threadStep at hstep
  cases hpc : s.pc k with
  | idle => simp [hpc] at hstep
  | dispatching r i =>
      simp only [hpc] at hstep
      split at hstep
      · obtain rfl := Option.some.inj hstep
        exact h.setPc (by simp) (by simp)
      · rename_i g hg
        obtain rfl := Option.some.inj hstep
        have hdrop := drop_of_getElem? hg
        have hd := h.dispatching k r i hpc
        rw [hdrop] at hd
        refine h.setPc (by simp) fun r' i' g' hg' ↦ ?_
        cases hg'
        have hnodup := h.nodup.sublist (List.drop_sublist i s.handlers)
        rw [hdrop, List.nodup_cons] at hnodup
        exact ⟨hd, hnodup.1, h.known (List.mem_of_getElem? hg)⟩
  | handling r i g =>
      simp only [hpc, Option.some.injEq] at hstep
      subst hstep
      have hkeep : Inv (s.setPc k (.dispatching r i)) := by
        refine h.setPc (fun r' i' hr ↦ ?_) (by simp)
        cases hr
        exact (h.handling k r i g hpc).1.mono rfl fun uid huid ↦ .inl ⟨List.mem_cons_of_mem _ huid, rfl⟩
      cases g with
      | other n => exact hkeep
      | record uid =>
          by_cases hfilter : testUidFilter uid r.name = true
          · rw [handle, if_pos hfilter]
            exact h.emit hpc hfilter
          · rw [handle, if_neg hfilter]
            exact hkeep
  | searching uid i =>
      simp only [hpc] at hstep
      split at hstep
      · obtain rfl := Option.some.inj hstep
        exact h.setPc (by simp) (by simp)
      · obtain rfl := Option.some.inj hstep
        exact h.setPc (by split <;> simp) (by split <;> simp)
  | removing g =>
      simp only [hpc, Option.some.injEq] at hstep
      subst hstep
      exact (h.erase g).setPc (by simp) (by simp)

theorem inv_step {a : Action κ} (h : Inv s) (hstep : step s a = some s') : Inv s' := by
  cases a with
  | addHandler g =>
      simp only [step, Option.ite_none_right_eq_some, Option.some.injEq] at hstep
      obtain ⟨hnew, rfl⟩ := hstep
      exact h.addHandler hnew
  | log k r =>
      simp only [step, Option.ite_none_right_eq_some, Option.some.injEq] at hstep
      obtain ⟨-, rfl⟩ := hstep
      exact h.log r
  | remove k uid =>
      simp only [step, Option.ite_none_right_eq_some, Option.some.injEq] at hstep
      obtain ⟨-, rfl⟩ := hstep
      exact h.setPc (by simp) (by simp)
  | step k => exact inv_threadStep h hstep

theorem inv_run {as : List (Action κ)} (hrun : runActions step as {} = some s) : Inv s :=
  run_invariant (C := fun _ _ ↦ True) (fun _ _ _ hs _ h ↦ inv_step hs h) inv_initial
    (runMeets_of_forall (fun _ _ _ ↦ trivial) _) hrun

/-- Whatever threads log and whatever tests begin and end in the meantime, the record of
a test has nothing that a logger of another test logged; and of what one thread logged it
has nothing twice, and all in the order of logging. -/
theorem records_routed {as : List (Action κ)} (hrun : runActions step as {} = some s) (uid : String) :
    (∀ p ∈ s.records uid, ∀ uid', '.' ∉ uid'.toList → ∀ suffixes : List String,
        p.2.name = suffixes.foldl getChild (getRecordLoggerFor uid') → uid' = uid) ∧
      ∀ k, (of k (s.records uid)).Sublist (of k s.logged) := by
  have h := inv_run hrun
  refine ⟨fun p hp uid' huid' suffixes hname ↦ ?_, h.sublist uid⟩
  have hfilter := h.filtered uid p hp
  rw [testUidFilter, hname, recordLoggerUid_foldl_getChild huid'] at hfilter
  simpa using hfilter

/-- The test `"b"` ends while a logger of the test `"a"` logs. -/
theorem records_routed_two :
    let run : List (Action Bool) :=
      [.addHandler (.record "b"), .addHandler (.record "a"), .remove true "b", .step true,
        .log false ⟨"openhtf.test_record.a.phase", "begun"⟩, .step false, .step true, .step false, .step false]
    ∃ s, runActions step run {} = some s ∧
      (∀ p ∈ s.records "a", ∀ uid', '.' ∉ uid'.toList → ∀ suffixes : List String,
          p.2.name = suffixes.foldl getChild (getRecordLoggerFor uid') → uid' = "a") ∧
        ∀ k, (of k (s.records "a")).Sublist (of k s.logged) := by
  intro run
  obtain ⟨s, hrun⟩ := Option.isSome_iff_exists.mp (by decide +kernel : (runActions step run {}).isSome = true)
  exact ⟨s, hrun, records_routed hrun "a"⟩

end Routing

end OpenHtf.LogRouting
