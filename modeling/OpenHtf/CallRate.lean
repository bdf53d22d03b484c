import OpenHtf.Lib.Interleaving
import Mathlib.Algebra.Order.Group.Defs
import Mathlib.Algebra.Order.Ring.Rat
import Mathlib.Data.List.DropRight
import Mathlib.Tactic.Abel
import Mathlib.Tactic.NormNum

/-!
# Limiting the rate of calls

The decorator `call_at_most_every` of `util.functions`.  Times are the elements of
an ordered group; a call reads the clock twice, before it sleeps and when it
records itself.
-/

set_option autoImplicit false

namespace OpenHtf.CallRate

/-! ## The history of calls -/

/-- A `collections.deque` with a `maxlen`. -/
structure BoundedDeque (T : Type) where
  maxlen : ℕ
  items : List T
  length_le : items.length ≤ maxlen

namespace BoundedDeque

variable {T : Type}

def empty (maxlen : ℕ) : BoundedDeque T := ⟨maxlen, [], Nat.zero_le maxlen⟩

def append (t : T) (d : BoundedDeque T) : BoundedDeque T where
  maxlen := d.maxlen
  items := (d.items ++ [t]).drop (d.items.length + 1 - d.maxlen)
  length_le := by
    simp only [List.length_drop, List.length_append, List.length_singleton]
    omega

/-- A deque that holds the last items of a list does so when both are extended. -/
theorem items_append {d : BoundedDeque T} {l : List T} (h : d.items = l.rtake d.maxlen) (t : T) :
    (d.append t).items = (l ++ [t]).rtake d.maxlen := by
  have hlength : d.items.length = l.length - (l.length - d.maxlen) := by
    rw [h, List.rtake, List.length_drop]
  have hitems : d.items ++ [t] = (l ++ [t]).drop (l.length - d.maxlen) := by
    rw [h, List.rtake, List.drop_append_of_le_length (Nat.sub_le _ _)]
  change (d.items ++ [t]).drop (d.items.length + 1 - d.maxlen) = _
  rw [hitems, List.drop_drop, List.rtake, List.length_append, List.length_singleton]
  congr 1
  omega

end BoundedDeque

/-! ## The decorator -/

/-- A function with its attribute `_call_history`. -/
structure Func (T : Type) where
  callHistory : Option (BoundedDeque T)

/-- The history that the wrapper uses, which is the attribute if there is one. -/
def historyFor {T : Type} (count : ℕ) (func : Func T) : BoundedDeque T :=
  func.callHistory.getD (BoundedDeque.empty count)

/-- `decorator(func)` as far as `func` is concerned. -/
def decorate {T : Type} (count : ℕ) (func : Func T) : Func T := ⟨some (historyFor count func)⟩

inductive CallError where
  | IndexError
  | ValueError
  deriving DecidableEq

/-- What a thread has seen of the clock so far, and the times that its calls have
recorded. -/
structure State (T : Type) where
  callHistory : BoundedDeque T
  now : T
  recorded : List T := []

/-- The two readings of the clock in a call. -/
structure Readings (T : Type) where
  currentTime : T
  recordedTime : T

section Wrapper

variable {T : Type} [AddCommGroup T] [LinearOrder T] (seconds : T) (count : ℕ)

def windowCount (currentTime : T) (callHistory : BoundedDeque T) : ℕ :=
  callHistory.items.countP fun ts ↦ currentTime - seconds < ts

/-- What `time.sleep` is called with, if it is called. -/
def sleepTime (currentTime : T) (callHistory : BoundedDeque T) : Except CallError (Option T) :=
  let windowCount := windowCount seconds currentTime callHistory
  if count ≤ windowCount then
    match callHistory.items[windowCount - count]? with
    | none => .error .IndexError
    | some ts =>
      let sleep := ts - currentTime + seconds
      if sleep < 0 then .error .ValueError else .ok (some sleep)
  else .ok none

def State.record (t : T) (s : State T) : State T where
  callHistory := s.callHistory.append t
  now := t
  recorded := s.recorded ++ [t]

/-- `_wrapper` up to the call of `func`.  The clock does not run backwards, and a
sleep lasts at least as long as requested. -/
def call (s : State T) (r : Readings T) : Option (State T) :=
  if s.now ≤ r.currentTime then
    match sleepTime seconds count r.currentTime s.callHistory with
    | .error _ => some { s with now := r.currentTime }
    | .ok sleep =>
      if r.currentTime + sleep.getD 0 ≤ r.recordedTime then some (s.record r.recordedTime) else none
  else none

/-- Any `count + 1` consecutive calls span at least `seconds`. -/
def Spread (recorded : List T) : Prop :=
  ∀ i first last, recorded[i]? = some first → recorded[i + count]? = some last →
    seconds ≤ last - first

/-- Every run of calls of a function decorated with these arguments is spread,
whatever its history holds when they begin. -/
def Limits (func : Func T) : Prop :=
  ∀ start readings s, start.callHistory.maxlen = (historyFor count func).maxlen →
    start.recorded = [] → runActions (call seconds count) readings start = some s →
    Spread seconds count s.recorded

end Wrapper

section Lemmas

variable {T : Type} [AddCommGroup T] [LinearOrder T] {seconds : T} {count : ℕ}

/-! ## One call -/

theorem sleepTime_nonneg {currentTime : T} {callHistory : BoundedDeque T} {sleep : Option T}
    (h : sleepTime seconds count currentTime callHistory = .ok sleep) : 0 ≤ sleep.getD 0 := by
  simp only [sleepTime] at h
  split at h
  · split at h
    · contradiction
    · split at h
      · contradiction
      · rename_i hsleep
        obtain rfl := Except.ok.inj h
        exact not_lt.mp hsleep
  · obtain rfl := Except.ok.inj h
    exact le_rfl

/-- When the window is not full, the call does not sleep. -/
theorem sleepTime_of_lt {currentTime : T} {callHistory : BoundedDeque T}
    (h : windowCount seconds currentTime callHistory < count) :
    sleepTime seconds count currentTime callHistory = .ok none := by
  rw [sleepTime, if_neg (not_le.mpr h)]

/-- When there are just as many calls in the window as there may be, the call
sleeps on the first entry. -/
theorem sleepTime_of_eq {currentTime first : T} {callHistory : BoundedDeque T} {rest : List T}
    (hcount : windowCount seconds currentTime callHistory = count)
    (hitems : callHistory.items = first :: rest) (hfirst : 0 ≤ first - currentTime + seconds) :
    sleepTime seconds count currentTime callHistory = .ok (some (first - currentTime + seconds)) := by
  simp only [sleepTime, hcount, le_refl, if_true, Nat.sub_self, hitems, List.getElem?_cons_zero]
  rw [if_neg (not_lt.mpr hfirst)]

/-- A call at `t` that finds the window not full. -/
theorem call_of_lt {s : State T} {t : T} (hnow : s.now ≤ t)
    (h : windowCount seconds t s.callHistory < count) :
    call seconds count s ⟨t, t⟩ = some (s.record t) := by
  simp [call, hnow, sleepTime_of_lt h]

/-! ## Every window -/

/-- The history holds the last `count` of the recorded times, after what it held
before them. -/
structure Inv (seconds : T) (count : ℕ) (earlier : List T) (s : State T) : Prop where
  maxlen : s.callHistory.maxlen = count
  items : s.callHistory.items = (earlier ++ s.recorded).rtake count
  sorted : s.recorded.Pairwise (· ≤ ·)
  le_now : ∀ t ∈ s.recorded, t ≤ s.now
  spread : Spread seconds count s.recorded

variable {earlier : List T} {s s' : State T} {r : Readings T}

theorem inv_init (hmaxlen : s.callHistory.maxlen = count) (hrecorded : s.recorded = []) :
    Inv seconds count s.callHistory.items s where
  maxlen := hmaxlen
  items := by
    have hle : s.callHistory.items.length ≤ count := hmaxlen ▸ s.callHistory.length_le
    rw [hrecorded, List.append_nil, List.rtake, Nat.sub_eq_zero_of_le hle, List.drop_zero]
  sorted := by
    rw [hrecorded]
    exact List.Pairwise.nil
  le_now := by
    simp [hrecorded]
  spread := by
    intro i first last hfirst
    simp [hrecorded] at hfirst

/-- The history is what the last `count` calls have recorded. -/
theorem Inv.items_eq_drop (hinv : Inv seconds count earlier s) {n : ℕ}
    (hn : s.recorded.length = n + count) : s.callHistory.items = s.recorded.drop n := by
  have hlength : (earlier ++ s.recorded).length - count = earlier.length + n := by
    rw [List.length_append]
    omega
  rw [hinv.items, List.rtake, hlength, List.drop_append, List.drop_of_length_le (by omega)]
  simp

/-! ## Histories of another length -/

/-- A history that is too short is never full, so calls at the same time go on and on. -/
theorem calls_of_maxlen_lt (seconds : T) {t : T} (n : ℕ) (hmaxlen : s.callHistory.maxlen < count) (hnow : s.now ≤ t) :
    ∃ s', runActions (call seconds count) (List.replicate n ⟨t, t⟩) s = some s' ∧
      s'.recorded = s.recorded ++ List.replicate n t := by
  induction n generalizing s with
  | zero => exact ⟨s, rfl, by simp⟩
  | succ n ih =>
      have hlt : windowCount seconds t s.callHistory < count :=
        List.countP_le_length.trans_lt (s.callHistory.length_le.trans_lt hmaxlen)
      obtain ⟨s', hrun, hrecorded⟩ := ih (s := s.record t) hmaxlen le_rfl
      refine ⟨s', ?_, ?_⟩
      · rw [List.replicate_succ, runActions, call_of_lt hnow hlt]
        exact hrun
      · rw [hrecorded, State.record, List.replicate_succ, List.append_assoc]
        rfl

/-- When a longer history has an entry that is just out of the window, the call
sleeps on it although `count` later ones are in the window. -/
theorem call_of_longer (hnow : s.now ≤ seconds) (hseconds : 0 < seconds)
    (hmaxlen : count < s.callHistory.maxlen)
    (hrecorded : s.recorded = List.replicate count 0 ++ List.replicate count seconds)
    (hcount : 0 < count) (hitems : s.callHistory.items = s.recorded.rtake s.callHistory.maxlen) :
    call seconds count s ⟨seconds, seconds⟩ = some (s.record seconds) := by
  obtain ⟨k, hk⟩ : ∃ k, count - (count + count - s.callHistory.maxlen) = k + 1 :=
    ⟨count - (count + count - s.callHistory.maxlen) - 1, by omega⟩
  have hcons : s.callHistory.items =
      0 :: (List.replicate k 0 ++ List.replicate count seconds) := by
    rw [hitems, hrecorded, List.rtake, List.length_append, List.length_replicate,
      List.length_replicate, List.drop_append_of_le_length (by rw [List.length_replicate]; omega),
      List.drop_replicate, hk, List.replicate_succ, List.cons_append]
  have hwindow : windowCount seconds seconds s.callHistory = count := by
    simp [windowCount, hcons, List.countP_replicate, hseconds]
  have hsleep := sleepTime_of_eq hwindow hcons (by simp)
  simp [call, hnow, hsleep]

theorem not_spread_of_getElem? {recorded : List T} {t : T} (hseconds : 0 < seconds) {i : ℕ}
    (hfirst : recorded[i]? = some t) (hlast : recorded[i + count]? = some t) :
    ¬Spread seconds count recorded := by
  intro h
  have hle := h i t t hfirst hlast
  rw [sub_self] at hle
  exact absurd hseconds (not_lt.mpr hle)

variable [IsOrderedAddMonoid T]

/-- A call of which the history has room for `count` entries does not raise. -/
theorem exists_sleepTime (seconds currentTime : T) {callHistory : BoundedDeque T} (hcount : 0 < count)
    (hlength : callHistory.items.length ≤ count) :
    ∃ sleep, sleepTime seconds count currentTime callHistory = .ok sleep := by
  obtain hlt | hle := lt_or_ge (windowCount seconds currentTime callHistory) count
  · exact ⟨none, sleepTime_of_lt hlt⟩
  · have hcountP : windowCount seconds currentTime callHistory ≤ callHistory.items.length :=
      List.countP_le_length
    have hall := List.countP_eq_length.mp (hcountP.antisymm (hlength.trans hle))
    cases hitems : callHistory.items with
    | nil =>
        rw [hitems, List.length_nil] at hcountP
        omega
    | cons first rest =>
        have hfirst : currentTime - seconds < first :=
          of_decide_eq_true (hall first (hitems ▸ List.mem_cons_self))
        have hpos : 0 ≤ first - currentTime + seconds := by
          have hle := sub_nonneg.mpr (sub_lt_iff_lt_add.mp hfirst).le
          rwa [sub_add_eq_add_sub]
        exact ⟨_, sleepTime_of_eq (by omega) hitems hpos⟩

/-- No call raises in the wrapper. -/
theorem Inv.call_cases (hinv : Inv seconds count earlier s) (hcount : 0 < count)
    (h : call seconds count s r = some s') :
    s.now ≤ r.currentTime ∧ ∃ sleep,
      sleepTime seconds count r.currentTime s.callHistory = .ok sleep ∧
      r.currentTime + sleep.getD 0 ≤ r.recordedTime ∧ s' = s.record r.recordedTime := by
  have hlength : s.callHistory.items.length ≤ count := hinv.maxlen ▸ s.callHistory.length_le
  obtain ⟨sleep, hsleep⟩ := exists_sleepTime seconds r.currentTime hcount hlength
  rw [CallRate.call, hsleep] at h
  split at h
  · rename_i hnow
    simp only at h
    split at h
    · rename_i hrecorded
      exact ⟨hnow, sleep, hsleep, hrecorded, (Option.some.inj h).symm⟩
    · contradiction
  · contradiction

/-- A recorded time is at least `seconds` after that of `count` calls before. -/
theorem Inv.add_le_recordedTime (hinv : Inv seconds count earlier s) (hcount : 0 < count) {n : ℕ}
    {first : T} {sleep : Option T} (hn : s.recorded.length = n + count)
    (hfirst : s.recorded[n]? = some first)
    (hsleep : sleepTime seconds count r.currentTime s.callHistory = .ok sleep)
    (hrecorded : r.currentTime + sleep.getD 0 ≤ r.recordedTime) :
    first + seconds ≤ r.recordedTime := by
  obtain ⟨hlt, rfl⟩ := List.getElem?_eq_some_iff.mp hfirst
  have hitems := hinv.items_eq_drop hn
  have hcons := hitems.trans (List.drop_eq_getElem_cons hlt)
  by_cases hwindow : r.currentTime - seconds < s.recorded[n]
  · -- the history is sorted, so all of its entries are in the window
    have hsorted : (s.recorded.drop n).Pairwise (· ≤ ·) := hinv.sorted.sublist (List.drop_sublist n _)
    rw [List.drop_eq_getElem_cons hlt, List.pairwise_cons] at hsorted
    have hfull : windowCount seconds r.currentTime s.callHistory = count := by
      have hall : ∀ t ∈ s.callHistory.items, decide (r.currentTime - seconds < t) = true := by
        intro t ht
        rw [hcons] at ht
        apply decide_eq_true
        obtain rfl | ht := List.mem_cons.mp ht
        · exact hwindow
        · exact lt_of_lt_of_le hwindow (hsorted.1 t ht)
      rw [windowCount, List.countP_eq_length.mpr hall, hitems, List.length_drop]
      omega
    have hpos : 0 ≤ s.recorded[n] - r.currentTime + seconds := by
      have hlt := sub_lt_iff_lt_add.mp hwindow
      have hle := sub_nonneg.mpr hlt.le
      rwa [sub_add_eq_add_sub]
    rw [sleepTime_of_eq hfull hcons hpos] at hsleep
    obtain rfl := Except.ok.inj hsleep
    calc s.recorded[n] + seconds
        = r.currentTime + (s.recorded[n] - r.currentTime + seconds) := by abel
      _ ≤ r.recordedTime := hrecorded
  · calc s.recorded[n] + seconds
        ≤ r.currentTime := le_sub_iff_add_le.mp (not_lt.mp hwindow)
      _ ≤ r.currentTime + sleep.getD 0 := le_add_of_nonneg_right (sleepTime_nonneg hsleep)
      _ ≤ r.recordedTime := hrecorded

theorem Inv.call (hcount : 0 < count) (hinv : Inv seconds count earlier s)
    (h : call seconds count s r = some s') : Inv seconds count earlier s' := by
  obtain ⟨hnow, sleep, hsleep, hrecorded, rfl⟩ := hinv.call_cases hcount h
  have hcurrent : r.currentTime ≤ r.recordedTime :=
    (le_add_of_nonneg_right (sleepTime_nonneg hsleep)).trans hrecorded
  have hle : ∀ t ∈ s.recorded, t ≤ r.recordedTime := fun t ht ↦
    (hinv.le_now t ht).trans (hnow.trans hcurrent)
  refine ⟨hinv.maxlen, ?_, ?_, ?_, ?_⟩
  · have hitems : s.callHistory.items = (earlier ++ s.recorded).rtake s.callHistory.maxlen := by
      rw [hinv.maxlen]
      exact hinv.items
    rw [State.record, BoundedDeque.items_append hitems, hinv.maxlen, List.append_assoc]
  · rw [State.record, List.pairwise_append]
    refine ⟨hinv.sorted, List.pairwise_singleton _ _, ?_⟩
    intro t ht t' ht'
    obtain rfl := List.mem_singleton.mp ht'
    exact hle t ht
  · intro t ht
    obtain ht | ht := List.mem_append.mp ht
    · exact hle t ht
    · exact (List.mem_singleton.mp ht).le
  · intro i first last hfirst hlast
    simp only [State.record] at hfirst hlast
    obtain hlt | heq | hgt := lt_trichotomy (i + count) s.recorded.length
    · rw [List.getElem?_append_left hlt] at hlast
      rw [List.getElem?_append_left (by omega)] at hfirst
      exact hinv.spread i first last hfirst hlast
    · rw [heq, List.getElem?_concat_length] at hlast
      obtain rfl := Option.some.inj hlast
      rw [List.getElem?_append_left (by omega)] at hfirst
      have hadd := hinv.add_le_recordedTime hcount heq.symm hfirst hsleep hrecorded
      rw [add_comm] at hadd
      exact le_sub_iff_add_le.mpr hadd
    · have hnone : (s.recorded ++ [r.recordedTime])[i + count]? = none := by
        rw [List.getElem?_eq_none_iff, List.length_append, List.length_singleton]
        omega
      rw [hnone] at hlast
      contradiction

/-- Up to `count` calls at a time are in the window. -/
theorem calls_of_window (count : ℕ) {t : T} (n : ℕ) (hseconds : 0 < seconds)
    (hitems : s.callHistory.items = s.recorded.rtake s.callHistory.maxlen) (hnow : s.now ≤ t)
    (hwindow : s.recorded.countP (fun ts ↦ t - seconds < ts) + n ≤ count) :
    ∃ s', runActions (call seconds count) (List.replicate n ⟨t, t⟩) s = some s' ∧
      s'.recorded = s.recorded ++ List.replicate n t ∧
      s'.callHistory.maxlen = s.callHistory.maxlen ∧
      s'.callHistory.items = s'.recorded.rtake s.callHistory.maxlen ∧ s'.now ≤ t := by
  induction n generalizing s with
  | zero => exact ⟨s, rfl, by simp, rfl, hitems, hnow⟩
  | succ n ih =>
      have hlt : windowCount seconds t s.callHistory < count := by
        have hsub : s.callHistory.items.Sublist s.recorded := by
          rw [hitems]
          exact List.drop_sublist _ _
        have hle := hsub.countP_le (p := fun ts ↦ decide (t - seconds < ts))
        rw [windowCount]
        omega
      have hmem : t - seconds < t := sub_lt_self t hseconds
      have hnext : (s.record t).recorded.countP (fun ts ↦ t - seconds < ts) + n ≤ count := by
        simp only [State.record, List.countP_append, List.countP_singleton, hmem, decide_true, if_true]
        omega
      obtain ⟨s', hrun, hrecorded, hmaxlen, hitems', hnow'⟩ :=
        ih (s := s.record t) (BoundedDeque.items_append hitems t) le_rfl hnext
      refine ⟨s', ?_, ?_, hmaxlen, hitems', hnow'⟩
      · rw [List.replicate_succ, runActions, call_of_lt hnow hlt]
        exact hrun
      · rw [hrecorded, State.record, List.replicate_succ, List.append_assoc]
        rfl

theorem exists_not_spread (hseconds : 0 < seconds) (hcount : 0 < count) (d : BoundedDeque T)
    (hempty : d.items = []) (hmaxlen : d.maxlen ≠ count) :
    ∃ readings s, runActions (call seconds count) readings ⟨d, 0, []⟩ = some s ∧
      ¬Spread seconds count s.recorded := by
  obtain hlt | hgt := Nat.lt_or_gt_of_ne hmaxlen
  · obtain ⟨s, hrun, hrecorded⟩ :=
      calls_of_maxlen_lt (s := ⟨d, 0, []⟩) (t := 0) seconds (count + 1) hlt le_rfl
    refine ⟨_, s, hrun, ?_⟩
    rw [hrecorded]
    apply not_spread_of_getElem? (t := 0) (i := 0) hseconds
    · simp
    · simp
  · obtain ⟨s₁, hrun₁, hrecorded₁, hmaxlen₁, hitems₁, hnow₁⟩ :=
      calls_of_window (s := ⟨d, 0, []⟩) (t := 0) count count hseconds
        (by simp [hempty]) le_rfl (by simp)
    rw [List.nil_append] at hrecorded₁
    obtain ⟨s₂, hrun₂, hrecorded₂, hmaxlen₂, hitems₂, hnow₂⟩ :=
      calls_of_window (s := s₁) (t := seconds) count count hseconds
        (by rw [hmaxlen₁]; exact hitems₁) (hnow₁.trans hseconds.le) (by simp [hrecorded₁, List.countP_replicate])
    rw [hrecorded₁] at hrecorded₂
    have hcall := call_of_longer hnow₂ hseconds (by rw [hmaxlen₂, hmaxlen₁]; exact hgt)
      hrecorded₂ hcount (by rw [hmaxlen₂]; exact hitems₂)
    refine ⟨List.replicate count ⟨0, 0⟩ ++ (List.replicate count ⟨seconds, seconds⟩ ++
      [⟨seconds, seconds⟩]), s₂.record seconds, ?_, ?_⟩
    · rw [runActions_append, hrun₁, Option.bind_some, runActions_append, hrun₂, Option.bind_some,
        runActions, hcall]
      rfl
    · apply not_spread_of_getElem? (t := seconds) (i := count) hseconds
      · simp [State.record, hrecorded₂, hcount]
      · simp [State.record, hrecorded₂]

/-! ## The result -/

/-- Calls of a function decorated with `call_at_most_every(seconds, count)` are
spread in every run if and only if the function has no `_call_history` of another
length from an earlier decoration. -/
theorem limits_decorate_iff (hseconds : 0 < seconds) (hcount : 0 < count) (func : Func T) :
    Limits seconds count func ↔ ∀ d, func.callHistory = some d → d.maxlen = count := by
  have hmaxlen : (historyFor count func).maxlen = count ↔
      ∀ d, func.callHistory = some d → d.maxlen = count := by
    cases h : func.callHistory with
    | none => simp [historyFor, h, BoundedDeque.empty]
    | some d => simp [historyFor, h]
  rw [← hmaxlen]
  constructor
  · intro hlimits
    by_contra hne
    obtain ⟨readings, s, hrun, hnot⟩ :=
      exists_not_spread hseconds hcount (.empty (historyFor count func).maxlen) rfl hne
    exact hnot (hlimits _ readings s rfl rfl hrun)
  · intro heq start readings s hstart hrecorded hrun
    have hstep : ∀ s r s', Inv seconds count start.callHistory.items s → True →
        call seconds count s r = some s' → Inv seconds count start.callHistory.items s' :=
      fun _ _ _ hinv _ h ↦ hinv.call hcount h
    have hinit : Inv seconds count start.callHistory.items start :=
      inv_init (hstart.trans heq) hrecorded
    have hmeets : RunMeets (call seconds count) (fun _ _ ↦ True) readings start :=
      runMeets_of_forall (fun _ _ _ ↦ trivial) start
    exact (run_invariant hstep hinit hmeets hrun).spread

end Lemmas

theorem limits_undecorated_iff :
    Limits (10 : ℚ) 2 ⟨none⟩ ↔ ∀ d, (⟨none⟩ : Func ℚ).callHistory = some d → d.maxlen = 2 :=
  limits_decorate_iff (by norm_num) (by decide) ⟨none⟩

/-- A function that was decorated for one call keeps a history of one call, so a
decoration for two calls in ten seconds does not limit it. -/
theorem not_limits_redecorated : ¬Limits (10 : ℚ) 2 (decorate 1 ⟨none⟩) := by
  intro hlimits
  have hrun : (runActions (call (10 : ℚ) 2) [⟨0, 0⟩, ⟨1, 1⟩, ⟨2, 2⟩] ⟨.empty 1, 0, []⟩).map
      State.recorded = some [0, 1, 2] := by
    decide +kernel
  obtain ⟨s, hrun, hrecorded⟩ := Option.map_eq_some_iff.mp hrun
  have hspread := hlimits _ _ s rfl rfl hrun 0 0 2
  rw [hrecorded] at hspread
  have hle := hspread rfl rfl
  norm_num at hle

end OpenHtf.CallRate
