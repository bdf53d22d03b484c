import OpenHtf.MacFormat

/-!
# The filter of log records

`MacAddressLogFilter.filter` of `util.logs`.  It redacts the template of a record and its
arguments each for themselves, and the message is put together from them later.
-/

set_option autoImplicit false

namespace OpenHtf.MacFilter

open PercentFormat CharClass

/-- The `msg` of a record: a string, or another object and what `str` gives for it. -/
inductive Msg where
  | text (s : Text)
  | object (str : Except PyExc Text)

/-- A `logging.LogRecord`; a mapping that is its only argument is its `args`. -/
structure LoggingRecord (O : Type) where
  msg : Msg
  args : Args Char O

variable {α O : Type} [Glyph α]

def Msg.str : Msg → Except PyExc Text
  | text s => .ok s
  | object str => str

/-- What iterating over `args` gives: of a mapping its keys. -/
def elements : Args α O → List (Arg α O)
  | .tuple args => args
  | .mapping items _ => items.map Prod.fst

/-- `msg % args`, or `msg` if there are no arguments. -/
def fill (py : Objects O) (msg : List α) (args : Args α O) : Except PyExc (List α) :=
  if (elements args).isEmpty then .ok msg else percent py msg args

def LoggingRecord.getMessage (py : Objects O) (record : LoggingRecord O) : Except PyExc Text := do
  let msg ← record.msg.str
  fill py msg record.args

/-- A string among the arguments is redacted. -/
def redactArg (cc : CharClass) : Arg Char O → Arg Char O
  | .text s => .text (cc.sub s)
  | .object o => .object o

/-- `MacAddressLogFilter.filter`: the record it leaves. -/
def filter (cc : CharClass) (py : Objects O) (record : LoggingRecord O) :
    Except PyExc (LoggingRecord O) := do
  let message ← record.getMessage py
  if cc.search message then
    match record.msg with
    | .text s => return ⟨.text (cc.sub s), .tuple ((elements record.args).map (redactArg cc))⟩
    | .object _ =>
        let message ← record.getMessage py
        return { record with msg := .text (cc.sub message) }
  else return record

/-- A message that could be made before can be made after the filter has run, and then
there is no address in it. -/
def Redacts (cc : CharClass) (py : Objects O) (record : LoggingRecord O) : Prop :=
  ∀ before, record.getMessage py = .ok before →
    ∃ record' after, filter cc py record = .ok record' ∧ record'.getMessage py = .ok after ∧
      cc.search after = false

/-! ## What the filter reaches -/

def markArg (cc : CharClass) : Arg Char O → Arg (Char × Mark) O
  | .text s => .text (cc.mark s)
  | .object o => .object o

def keepArg : Arg Char O → Arg (Char × Mark) O
  | .text s => .text (keep s)
  | .object o => .object o

def keepArgs : Args Char O → Args (Char × Mark) O
  | .tuple args => .tuple (args.map keepArg)
  | .mapping items object => .mapping (items.map fun item ↦ (keepArg item.1, keepArg item.2)) object

/-- The message with what the filter drops marked in it.  Of a template and its arguments,
which are the keys if they are a mapping, that is what it finds in each of them; of another
object it is what it finds in the message, which is filled in with the arguments again. -/
def marked (cc : CharClass) (py : Objects O) (record : LoggingRecord O) : Except PyExc Marked :=
  match record.msg with
  | .text s => fill py (cc.mark s) (.tuple ((elements record.args).map (markArg cc)))
  | .object _ => do
      let message ← record.getMessage py
      fill py (cc.mark message) (keepArgs record.args)

/-- The message can be put together, and of every address in it something is dropped. -/
def Covered (cc : CharClass) (result : Except PyExc Marked) : Prop :=
  ∃ m, result = .ok m ∧ keptAddress cc m = false

variable {cc : CharClass} {py : Objects O}

theorem renderArg_markArg (arg : Arg Char O) : renderArg (markArg cc arg) = redactArg cc arg := by
  cases arg with
  | text s => exact congrArg Arg.text (render_mark s)
  | object o => rfl

theorem renderArg_keepArg (arg : Arg Char O) : renderArg (keepArg arg) = arg := by
  cases arg with
  | text s => exact congrArg Arg.text (render_keep s)
  | object o => rfl

theorem soundArg_markArg (arg : Arg Char O) : SoundArg (markArg cc arg) := by
  cases arg with
  | text s =>
      refine ⟨placed_mark s .other, ?_⟩
      have hlen : (cc.mark s).length = s.length := by
        exact (List.length_map Prod.fst).symm.trans (congrArg List.length (erase_mark s))
      rw [hlen, render_mark]
      exact length_le_length_sub s
  | object o => trivial

theorem soundArg_keepArg (arg : Arg Char O) : SoundArg (keepArg arg) := by
  cases arg with
  | text s =>
      refine ⟨placed_keep s .other, ?_⟩
      have hlen : (keep s).length = s.length := List.length_map _
      rw [render_keep]
      exact Nat.le_of_eq hlen
  | object o => trivial

theorem renderArgs_keepArgs (args : Args Char O) : renderArgs (keepArgs args) = args := by
  cases args with
  | tuple args => simp [keepArgs, renderArgs, Function.comp_def, renderArg_keepArg]
  | mapping items object => simp [keepArgs, renderArgs, Function.comp_def, renderArg_keepArg]

theorem soundArgs_keepArgs (args : Args Char O) : SoundArgs (keepArgs args) := by
  cases args with
  | tuple args =>
      intro arg harg
      obtain ⟨arg, -, rfl⟩ := List.mem_map.mp harg
      exact soundArg_keepArg arg
  | mapping items object =>
      intro item hitem
      obtain ⟨item, -, rfl⟩ := List.mem_map.mp hitem
      exact soundArg_keepArg item.2

/-- Filling in redacted parts is rendering what the marked parts give. -/
theorem fill_render {template : Marked} {args : Args (Char × Mark) O}
    (htemplate : Placed .other template) (hargs : SoundArgs args) :
    fill py (render template) (renderArgs args) = render <$> fill py template args := by
  have hempty : (elements (renderArgs args)).isEmpty = (elements args).isEmpty := by
    cases args with
    | tuple args => cases args <;> rfl
    | mapping items object => cases items <;> rfl
  unfold fill
  rw [hempty]
  split
  · rfl
  · exact percent_render py htemplate hargs

theorem placed_fill {template out : Marked} {args : Args (Char × Mark) O}
    (htemplate : Placed .other template) (hargs : SoundArgs args)
    (hout : fill py template args = .ok out) : Placed .other out := by
  unfold fill at hout
  split at hout
  · obtain rfl := Except.ok.inj hout
    exact htemplate
  · exact placed_percent py htemplate hargs hout

/-- What the parts that are marked come from. -/
theorem marked_eq (cc : CharClass) (record : LoggingRecord O) {message : Text} (h : record.getMessage py = .ok message) :
    ∃ template args, marked cc py record = fill py template args ∧ Placed .other template ∧
      SoundArgs args ∧
      (cc.search message = true →
        filter cc py record = .ok ⟨.text (render template), renderArgs args⟩) := by
  obtain ⟨msg, args⟩ := record
  cases msg with
  | text s =>
      refine ⟨cc.mark s, .tuple ((elements args).map (markArg cc)), rfl, placed_mark s .other, ?_, ?_⟩
      · intro arg harg
        obtain ⟨arg, -, rfl⟩ := List.mem_map.mp harg
        exact soundArg_markArg arg
      · intro hsearch
        have hargs : renderArgs (.tuple ((elements args).map (markArg cc))) =
            .tuple ((elements args).map (redactArg cc)) := by
          rw [renderArgs, List.map_map]
          exact congrArg (fun f ↦ Args.tuple ((elements args).map f)) (funext renderArg_markArg)
        rw [filter, h, hargs, render_mark]
        exact if_pos hsearch
  | object str =>
      refine ⟨cc.mark message, keepArgs args, ?_, placed_mark message .other, soundArgs_keepArgs args, ?_⟩
      · rw [marked, h]
        rfl
      · intro hsearch
        rw [filter, h, renderArgs_keepArgs, render_mark]
        exact if_pos hsearch

/-- What the filter makes of the message of a record in which it finds an address. -/
theorem getMessage_filter {record : LoggingRecord O} {message : Text}
    (h : record.getMessage py = .ok message) (hsearch : cc.search message = true) :
    ∃ record', filter cc py record = .ok record' ∧
      record'.getMessage py = render <$> marked cc py record ∧
      ∀ m, marked cc py record = .ok m → Placed .other m := by
  obtain ⟨template, args, hmarked, htemplate, hargs, hfilter⟩ := marked_eq cc record h
  refine ⟨_, hfilter hsearch, ?_, ?_⟩
  · rw [hmarked]
    exact fill_render htemplate hargs
  · intro m hm
    rw [hmarked] at hm
    exact placed_fill htemplate hargs hm

/-- The filter keeps addresses out of the message exactly if something is dropped of each
address that there is in it. -/
theorem redacts_iff (cc : CharClass) (py : Objects O) (record : LoggingRecord O) :
    Redacts cc py record ↔ ∀ message, record.getMessage py = .ok message →
      cc.search message = true → Covered cc (marked cc py record) := by
  constructor
  · intro h message hmessage hsearch
    obtain ⟨record', after, hfilter, hafter, hnone⟩ := h message hmessage
    obtain ⟨record'', hfilter', hget, hplaced⟩ := getMessage_filter hmessage hsearch
    obtain rfl := Except.ok.inj (hfilter.symm.trans hfilter')
    obtain ⟨m, hm, rfl⟩ := Except.map_eq_ok_iff.mp (hget.symm.trans hafter)
    refine ⟨m, hm, ?_⟩
    rw [← search_render (hplaced m hm)]
    exact hnone
  · intro h before hbefore
    cases hsearch : cc.search before with
    | false =>
        refine ⟨record, before, ?_, hbefore, hsearch⟩
        rw [filter, hbefore]
        exact if_neg (by simp [hsearch])
    | true =>
        obtain ⟨m, hm, hkept⟩ := h before hbefore hsearch
        obtain ⟨record', hfilter, hget, hplaced⟩ := getMessage_filter hbefore hsearch
        refine ⟨record', render m, hfilter, ?_, ?_⟩
        · rw [hget, hm]
          rfl
        · rw [search_render (hplaced m hm)]
          exact hkept

/-! ## Records that are and that are not redacted -/

/-- Without arguments nothing is put together later. -/
theorem redacts_of_no_args (cc : CharClass) (py : Objects O) (msg : Msg) :
    Redacts cc py ⟨msg, .tuple []⟩ := by
  rw [redacts_iff]
  intro message hmessage _
  cases msg with
  | text s => exact ⟨cc.mark s, rfl, keptAddress_mark s⟩
  | object str =>
      refine ⟨cc.mark message, ?_, keptAddress_mark message⟩
      rw [marked, hmessage]
      rfl

/-- What is logged of a record: the message after the filter, if there is one. -/
def logged (cc : CharClass) (py : Objects O) (record : LoggingRecord O) : Option Text :=
  match filter cc py record >>= LoggingRecord.getMessage py with
  | .ok message => some message
  | .error _ => none

theorem logged_of_redacts {record : LoggingRecord O} {before : Text} (h : Redacts cc py record)
    (hbefore : record.getMessage py = .ok before) :
    ∃ after, logged cc py record = some after ∧ cc.search after = false := by
  obtain ⟨record', after, hfilter, hafter, hnone⟩ := h before hbefore
  refine ⟨after, ?_, hnone⟩
  rw [logged, hfilter]
  change (match record'.getMessage py with | .ok message => some message | .error _ => none) = _
  rw [hafter]

/-- The characters of ASCII only. -/
def ascii : CharClass where
  decimal c := c.isDigit
  word c := c.isAlphanum || c == '_'
  decimal_ascii _ _ := rfl
  word_ascii _ _ := rfl
  word_of_decimal c h := by simp [Char.isAlphanum, h]

/-- Objects that are what `str` gives for them. -/
def printed : Objects Text where
  toInt _ := none
  convert _ s := .ok s
  repr s := s
  ascii s := s

/-- The filter runs, and then there is no message or one with an address. -/
def leaks (record : LoggingRecord Text) : Bool :=
  match record.getMessage printed, logged ascii printed record with
  | .ok _, some after => ascii.search after
  | .ok _, none => true
  | .error _, _ => false

theorem not_redacts_of_leaks {record : LoggingRecord Text} (h : leaks record = true) :
    ¬Redacts ascii printed record := by
  intro hredacts
  rw [leaks] at h
  cases hbefore : record.getMessage printed with
  | error e =>
      rw [hbefore] at h
      cases h
  | ok before =>
      obtain ⟨after, hlogged, hnone⟩ := logged_of_redacts hredacts hbefore
      rw [hbefore, hlogged] at h
      exact absurd (hnone.symm.trans h) nofun

/-- The address is in two arguments, in the values of a mapping, in an object that is no
string, or in a message that is none. -/
theorem not_redacts_joined :
    ¬Redacts ascii printed
      ⟨.text "%s:%s".toList, .tuple [.text "aa:bb:cc".toList, .text "dd:ee:ff".toList]⟩ ∧
    ¬Redacts ascii printed
      ⟨.text "%(mac)s".toList,
        .mapping [(.text "mac".toList, .text "aa:bb:cc:dd:ee:ff".toList)] "dict".toList⟩ ∧
    ¬Redacts ascii printed ⟨.text "%s".toList, .tuple [.object "aa:bb:cc:dd:ee:ff".toList]⟩ ∧
    ¬Redacts ascii printed
      ⟨.object (.ok "%s aa:bb:cc:dd:ee:ff".toList), .tuple [.text "found".toList]⟩ :=
  ⟨not_redacts_of_leaks (by decide +kernel), not_redacts_of_leaks (by decide +kernel),
    not_redacts_of_leaks (by decide +kernel), not_redacts_of_leaks (by decide +kernel)⟩

end OpenHtf.MacFilter
