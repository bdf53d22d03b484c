import OpenHtf.Lib.ExceptMap
import OpenHtf.MacRedaction
import OpenHtf.PercentFormat

/-!
# Redacting before formatting

A template and arguments that are redacted first and formatted then give the text that the
marked template and the marked arguments give, rendered.
-/

set_option autoImplicit false

namespace OpenHtf.MacFilter

open PercentFormat CharClass

instance : Glyph (Char × Mark) where
  char := Prod.fst
  ofChar c := (c, .kept)
  render := render

/-! ## Redacted templates and arguments -/

def renderToken : Token (Char × Mark) → List (Token Char)
  | .lit (c, .kept) => [.lit c]
  | .lit (_, .first) => redacted.map .lit
  | .lit (_, .rest) => []
  | .conv ⟨key, head, type⟩ => [.conv ⟨key.map render, head, type⟩]
  | .bad e => [.bad e]

def renderScan : Scan (Char × Mark) → Scan Char
  | .text => .text
  | .key depth key => .key depth (render key)
  | .spec phase key head => .spec phase (key.map render) head

/-- A conversion is not read over a character that is dropped. -/
def Unbroken (prev : Prev) : Scan (Char × Mark) → Prop
  | .spec _ _ _ => prev = .other
  | _ => True

theorem ne_colon_of_more {phase phase' : Phase} {head head' : Head} {c : Char}
    (h : specStep phase head c = .more phase' head') : c ≠ ':' := by
  rintro rfl
  have hdigit : (':' : Char).isDigit = false := by decide
  simp [specStep, hdigit] at h

theorem tokenize_text_redacted (s : Text) :
    tokenize .text (redacted ++ s) = redacted.map .lit ++ tokenize .text s := rfl

theorem keyStep_eq {α : Type} [Glyph α] {a : α} (hopen : Glyph.char a ≠ '(')
    (hclose : Glyph.char a ≠ ')') (depth : ℕ) (key : List α) :
    keyStep depth key a = .key depth (key ++ [a]) :=
  (if_neg hopen).trans (if_neg hclose)

theorem tokenize_key_redacted (depth : ℕ) (key s : Text) :
    tokenize (.key depth key) (redacted ++ s) = tokenize (.key depth (key ++ redacted)) s := by
  have hkey {a : Char} (hopen : a ≠ '(') (hclose : a ≠ ')') (key s : Text) :
      tokenize (.key depth key) (a :: s) = tokenize (.key depth (key ++ [a])) s := by
    rw [tokenize, keyStep_eq hopen hclose]
  rw [redacted]
  simp only [List.cons_append, List.nil_append]
  repeat rw [hkey (by decide) (by decide)]
  simp only [List.append_assoc, List.cons_append, List.nil_append]

theorem tokenize_text {c : Char} {mark : Mark} (hpercent : c ≠ '%') (m : Marked) :
    tokenize .text ((c, mark) :: m) = .lit (c, mark) :: tokenize .text m := by
  rw [tokenize]
  exact if_neg hpercent

theorem next_kept {c : Char} (h : c ≠ ':') : Prev.next c .kept = .other := if_neg h

theorem unbroken_text (prev : Prev) : Unbroken prev .text := trivial

theorem unbroken_key (prev : Prev) (depth : ℕ) (key : Marked) : Unbroken prev (.key depth key) := trivial

theorem unbroken_spec {c : Char} (h : c ≠ ':') (phase : Phase) (key : Option Marked) (head : Head) :
    Unbroken (.next c .kept) (.spec phase key head) := next_kept h

theorem unbroken_keyStep (depth : ℕ) (key : Marked) (c : Char) :
    Unbroken (.next c .kept) (keyStep depth key (c, .kept)) := by
  unfold keyStep
  split
  · trivial
  · split
    · rename_i hclose
      have hc : c ≠ ':' := by
        rintro rfl
        exact absurd hclose (by decide)
      cases depth with
      | zero => exact unbroken_spec hc _ _ _
      | succ depth => trivial
    · trivial

theorem renderScan_keyStep (depth : ℕ) (key : Marked) (c : Char) :
    renderScan (keyStep depth key (c, .kept)) = keyStep depth (render key) c := by
  have hkey : render (key ++ [(c, .kept)]) = render key ++ [c] := render_append _ _
  unfold keyStep
  change renderScan (if c = '(' then _ else if c = ')' then _ else _) =
    if c = '(' then _ else if c = ')' then _ else _
  split
  · rw [renderScan, hkey]
  · split
    · cases depth with
      | zero => rfl
      | succ depth => rw [renderScan, hkey]
    · rw [renderScan, hkey]

/-- The redacted template is read as the marked one is. -/
theorem tokenize_render {m : Marked} {prev : Prev} {scan : Scan (Char × Mark)} (h : Placed prev m)
    (hscan : Unbroken prev scan) :
    tokenize (renderScan scan) (render m) = (tokenize scan m).flatMap renderToken := by
  induction m generalizing prev scan with
  | nil => cases scan <;> rfl
  | cons x m ih =>
      obtain ⟨c, mark⟩ := x
      cases mark with
      | kept =>
          cases scan with
          | text =>
              by_cases hpercent : c = '%'
              · subst hpercent
                have hspec : Unbroken (.next '%' .kept) (.spec .start none {}) :=
                  unbroken_spec (by decide) _ _ _
                exact ih h.2 hspec
              · rw [tokenize_text hpercent, List.flatMap_cons, ← ih h.2 (unbroken_text _), render]
                exact if_neg hpercent
          | key depth key =>
              have hrest := ih h.2 (unbroken_keyStep depth key c)
              rw [renderScan_keyStep] at hrest
              exact hrest
          | spec phase key head =>
              rw [render, renderScan]
              cases hstep : specStep phase head c with
              | percent =>
                  rw [tokenize_percent (a := c) hstep, tokenize_percent (a := (c, Mark.kept)) hstep,
                    List.flatMap_cons, ← ih h.2 (unbroken_text _)]
                  rfl
              | key =>
                  rw [tokenize_key (a := c) hstep, tokenize_key (a := (c, Mark.kept)) hstep]
                  exact ih h.2 (unbroken_key _ 0 [])
              | more phase head =>
                  rw [tokenize_more (a := c) hstep, tokenize_more (a := (c, Mark.kept)) hstep]
                  exact ih h.2 (unbroken_spec (ne_colon_of_more hstep) phase key head)
              | done =>
                  rw [tokenize_done (a := c) hstep, tokenize_done (a := (c, Mark.kept)) hstep,
                    List.flatMap_cons, ← ih h.2 (unbroken_text _)]
                  rfl
      | first =>
          obtain ⟨-, hpercent, hopen, hclose⟩ := h.1
          cases scan with
          | text =>
              rw [tokenize_text hpercent, List.flatMap_cons, ← ih h.2 (unbroken_text _)]
              exact tokenize_text_redacted (render m)
          | key depth key =>
              have hkey : render (key ++ [(c, .first)]) = render key ++ redacted := by
                rw [render_append]
                rfl
              rw [tokenize, keyStep_eq hopen hclose, ← ih h.2 (unbroken_key _ _ _), renderScan,
                renderScan, hkey]
              exact tokenize_key_redacted depth (render key) (render m)
          | spec phase key head =>
              have hnever := h.1.1.symm.trans hscan
              cases hnever
      | rest =>
          obtain ⟨-, hpercent, hopen, hclose⟩ := h.1
          cases scan with
          | text =>
              rw [tokenize_text hpercent, List.flatMap_cons, ← ih h.2 (unbroken_text _)]
              rfl
          | key depth key =>
              have hkey : render (key ++ [(c, .rest)]) = render key := by
                rw [render_append]
                exact List.append_nil _
              rw [tokenize, keyStep_eq hopen hclose, ← ih h.2 (unbroken_key _ _ _), renderScan,
                renderScan, hkey]
              rfl
          | spec phase key head =>
              have hnever := h.1.1.symm.trans hscan
              cases hnever

/-! ## Redacted arguments -/

section Arguments

variable {O : Type}

def renderArg : Arg (Char × Mark) O → Arg Char O
  | .text t => .text (render t)
  | .object o => .object o

def renderGiven : Given (Char × Mark) O → Given Char O
  | .tuple rest => .tuple (rest.map renderArg)
  | .mapping items next =>
      .mapping (items.map fun item ↦ (renderArg item.1, renderArg item.2)) (next.map renderArg)

/-- The marks of a string are in their places, and what they drop is made up for. -/
def SoundArg : Arg (Char × Mark) O → Prop
  | .text t => Placed .other t ∧ t.length ≤ (render t).length
  | .object _ => True

def SoundGiven : Given (Char × Mark) O → Prop
  | .tuple rest => ∀ arg ∈ rest, SoundArg arg
  | .mapping items next => (∀ item ∈ items, SoundArg item.2) ∧ ∀ arg ∈ next, SoundArg arg

theorem nextArg_render (given : Given (Char × Mark) O) :
    (renderGiven given).nextArg = (fun x ↦ (renderArg x.1, renderGiven x.2)) <$> given.nextArg := by
  cases given with
  | tuple rest => cases rest <;> rfl
  | mapping items next => cases next <;> rfl

theorem soundGiven_nextArg {given given' : Given (Char × Mark) O} {arg : Arg (Char × Mark) O}
    (h : SoundGiven given) (hnext : given.nextArg = .ok (arg, given')) :
    SoundArg arg ∧ SoundGiven given' := by
  cases given with
  | tuple rest =>
      cases rest with
      | nil => cases hnext
      | cons first rest =>
          obtain ⟨rfl, rfl⟩ := Prod.mk.inj (Except.ok.inj hnext)
          exact ⟨h first List.mem_cons_self, fun arg harg ↦ h arg (List.mem_cons_of_mem _ harg)⟩
  | mapping items next =>
      cases next with
      | none => cases hnext
      | some first =>
          obtain ⟨rfl, rfl⟩ := Prod.mk.inj (Except.ok.inj hnext)
          exact ⟨h.2 first rfl, h.1, nofun⟩

theorem isKey_render (key : Text) (arg : Arg (Char × Mark) O) :
    Given.isKey key (renderArg arg) = Given.isKey key arg := by
  cases arg <;> rfl

theorem useKey_render (key : Option Marked) (given : Given (Char × Mark) O) :
    Given.useKey (key.map render) (renderGiven given) = renderGiven <$> given.useKey key := by
  cases key with
  | none => rfl
  | some key =>
      cases given with
      | tuple rest => rfl
      | mapping items next =>
          have hfind : (items.map fun item ↦ (renderArg item.1, renderArg item.2)).find?
                (fun item ↦ Given.isKey (Glyph.render (render key)) item.1) =
              (items.find? fun item ↦ Given.isKey (Glyph.render key) item.1).map fun item ↦
                (renderArg item.1, renderArg item.2) := by
            rw [List.find?_map]
            congr 2
            funext item
            exact isKey_render (render key) item.1
          simp only [renderGiven, Option.map_some, Given.useKey]
          rw [hfind]
          cases items.find? fun item ↦ Given.isKey (Glyph.render key) item.1 <;> rfl

theorem soundGiven_useKey {key : Option Marked} {given given' : Given (Char × Mark) O}
    (h : SoundGiven given) (hkey : given.useKey key = .ok given') : SoundGiven given' := by
  cases key with
  | none =>
      obtain rfl := Except.ok.inj hkey
      exact h
  | some key =>
      cases given with
      | tuple rest => cases hkey
      | mapping items next =>
          rw [Given.useKey] at hkey
          split at hkey
          · rename_i item hitem
            obtain rfl := Except.ok.inj hkey
            refine ⟨h.1, ?_⟩
            rintro _ ⟨rfl⟩
            exact h.1 item (List.mem_of_find?_eq_some hitem)
          · cases hkey

variable (py : Objects O)

theorem takeCount_render (count : Count) (given : Given (Char × Mark) O) :
    takeCount py count (renderGiven given) =
      (fun x ↦ (x.1, renderGiven x.2)) <$> takeCount py count given := by
  cases count with
  | none => rfl
  | number n => rfl
  | star =>
      rw [takeCount, takeCount, nextArg_render]
      cases given.nextArg with
      | error e => rfl
      | ok x =>
          obtain ⟨arg, given'⟩ := x
          cases arg with
          | text t => rfl
          | object o =>
              cases hint : py.toInt o with
              | none => simp [bind, Except.bind, renderArg, hint]
              | some n => simp [bind, Except.bind, renderArg, hint]

theorem soundGiven_takeCount {count : Count} {given given' : Given (Char × Mark) O} {n : Option ℤ}
    (h : SoundGiven given) (hcount : takeCount py count given = .ok (n, given')) :
    SoundGiven given' := by
  cases count with
  | none =>
      obtain ⟨-, rfl⟩ := Prod.mk.inj (Except.ok.inj hcount)
      exact h
  | number m =>
      obtain ⟨-, rfl⟩ := Prod.mk.inj (Except.ok.inj hcount)
      exact h
  | star =>
      obtain ⟨⟨arg, given''⟩, hnext, hcount⟩ := Except.bind_eq_ok_iff.mp hcount
      have hsound := (soundGiven_nextArg h hnext).2
      cases arg with
      | text t => cases hcount
      | object o =>
          cases hn : py.toInt o with
          | none =>
              simp only [hn] at hcount
              cases hcount
          | some m =>
              simp only [hn] at hcount
              obtain ⟨-, rfl⟩ := Prod.mk.inj (Except.ok.inj hcount)
              exact hsound

/-! ## Conversions -/

theorem textConversion_char (d : Directive) (s : Text) : convertText py d s = textConversion py d s := by
  unfold convertText
  split
  · rename_i hinserts
    obtain ⟨⟨htype, hprecision⟩, hwidth⟩ : (d.type = 's' ∧ d.precision = none) ∧ d.width ≤ s.length := by
      simpa [Directive.inserts] using hinserts
    have hcut : d.cut s = s := by rw [Directive.cut, hprecision]
    have hpad : d.pad s = s := by
      rw [Directive.pad, Nat.sub_eq_zero_of_le hwidth]
      simp
    rw [textConversion, htype]
    change _ = Except.ok (d.pad (d.cut s))
    rw [hcut, hpad]
  · change (fun s ↦ List.map (fun c ↦ c) s) <$> textConversion py d s = textConversion py d s
    simp

/-- What is inserted when it is marked is inserted when it is redacted. -/
theorem inserts_render {d : Directive} {t : Marked} (h : t.length ≤ (render t).length)
    (hinserts : d.inserts t.length = true) : d.inserts (render t).length = true := by
  simp only [Directive.inserts, Bool.and_eq_true, decide_eq_true_eq] at hinserts ⊢
  exact ⟨hinserts.1, Nat.le_trans hinserts.2 h⟩

theorem render_keep_map (s : Text) : render (s.map (Glyph.ofChar : Char → Char × Mark)) = s :=
  render_keep s

theorem convertText_render {d : Directive} {t : Marked} (h : t.length ≤ (render t).length) :
    convertText py d (render t) = render <$> convertText py d t := by
  cases hinserts : d.inserts t.length with
  | true =>
      rw [convertText, convertText, if_pos (inserts_render h hinserts), if_pos hinserts]
      rfl
  | false =>
      rw [textConversion_char, convertText, if_neg (by simp [hinserts])]
      change textConversion py d (render t) =
        render <$> ((fun s ↦ s.map Glyph.ofChar) <$> textConversion py d (render t))
      cases textConversion py d (render t) with
      | error e => rfl
      | ok s => exact congrArg Except.ok (render_keep_map s).symm

theorem convert_render {d : Directive} {arg : Arg (Char × Mark) O} (h : SoundArg arg) :
    convert py d (renderArg arg) = render <$> convert py d arg := by
  unfold convert
  split
  · cases arg with
    | text t => exact convertText_render py h.2
    | object o =>
        change (fun s ↦ List.map (fun c ↦ c) s) <$> py.convert d o =
          render <$> ((fun s ↦ s.map Glyph.ofChar) <$> py.convert d o)
        cases py.convert d o with
        | error e => rfl
        | ok s => exact congrArg Except.ok ((List.map_id s).trans (render_keep_map s).symm)
  · rfl

theorem placed_convert {d : Directive} {arg : Arg (Char × Mark) O} {out : Marked} (h : SoundArg arg)
    (hout : convert py d arg = .ok out) : Placed .other out := by
  have hkeep {result : Except PyExc Text}
      (hout : (fun s ↦ s.map (Glyph.ofChar : Char → Char × Mark)) <$> result = .ok out) :
      Placed .other out := by
    obtain ⟨s, -, rfl⟩ := Except.map_eq_ok_iff.mp hout
    exact placed_keep s .other
  unfold convert at hout
  split at hout
  · cases arg with
    | text t =>
        change convertText py d t = .ok out at hout
        unfold convertText at hout
        split at hout
        · obtain rfl := Except.ok.inj hout
          exact h.1
        · exact hkeep hout
    | object o => exact hkeep hout
  · cases hout

theorem readDirective_render (c : Conversion (Char × Mark)) (given : Given (Char × Mark) O) :
    readDirective py ⟨c.key.map render, c.head, c.type⟩ (renderGiven given) =
      (fun x ↦ (x.1, renderGiven x.2)) <$> readDirective py c given := by
  unfold readDirective
  rw [useKey_render]
  apply Except.map_bind_eq
  intro given₁ _
  rw [takeCount_render]
  apply Except.map_bind_eq
  rintro ⟨width, given₂⟩ _
  change takeCount py c.head.precision (renderGiven given₂) >>= _ = _
  rw [takeCount_render]
  apply Except.map_bind_eq
  rintro ⟨precision, given₃⟩ _
  rfl

theorem soundGiven_readDirective {c : Conversion (Char × Mark)} {given given' : Given (Char × Mark) O}
    {d : Directive} (h : SoundGiven given) (hread : readDirective py c given = .ok (d, given')) :
    SoundGiven given' ∧ d.type = c.type := by
  obtain ⟨given₁, hkey, hread⟩ := Except.bind_eq_ok_iff.mp hread
  obtain ⟨⟨width, given₂⟩, hwidth, hread⟩ := Except.bind_eq_ok_iff.mp hread
  obtain ⟨⟨precision, given₃⟩, hprecision, hread⟩ := Except.bind_eq_ok_iff.mp hread
  obtain ⟨rfl, rfl⟩ := Prod.mk.inj (Except.ok.inj hread)
  have h₁ := soundGiven_useKey h hkey
  have h₂ := soundGiven_takeCount py h₁ hwidth
  exact ⟨soundGiven_takeCount py h₂ hprecision, rfl⟩

theorem runConversion_render {c : Conversion (Char × Mark)} {given : Given (Char × Mark) O}
    (h : SoundGiven given) :
    runConversion py ⟨c.key.map render, c.head, c.type⟩ (renderGiven given) =
      (fun x ↦ (render x.1, renderGiven x.2)) <$> runConversion py c given := by
  unfold runConversion
  rw [readDirective_render]
  apply Except.map_bind_eq
  rintro ⟨d, given₁⟩ hread
  have h₁ := (soundGiven_readDirective py h hread).1
  dsimp only
  rw [nextArg_render]
  apply Except.map_bind_eq
  rintro ⟨arg, given₂⟩ hnext
  dsimp only
  rw [convert_render py (soundGiven_nextArg h₁ hnext).1]
  apply Except.map_bind_eq
  intro out _
  rfl

theorem runConversion_sound {c : Conversion (Char × Mark)} {given given' : Given (Char × Mark) O}
    {out : Marked} (h : SoundGiven given) (hrun : runConversion py c given = .ok (out, given')) :
    Placed .other out ∧ SoundGiven given' ∧ c.type ≠ ':' := by
  obtain ⟨⟨d, given₁⟩, hread, hrun⟩ := Except.bind_eq_ok_iff.mp hrun
  obtain ⟨h₁, htype⟩ := soundGiven_readDirective py h hread
  obtain ⟨⟨arg, given₂⟩, hnext, hrun⟩ := Except.bind_eq_ok_iff.mp hrun
  obtain ⟨out', hout, hrun⟩ := Except.bind_eq_ok_iff.mp hrun
  obtain ⟨rfl, rfl⟩ := Prod.mk.inj (Except.ok.inj hrun)
  obtain ⟨harg, h₂⟩ := soundGiven_nextArg h₁ hnext
  refine ⟨placed_convert py harg hout, h₂, ?_⟩
  intro hcolon
  unfold convert at hout
  rw [htype, hcolon, if_neg (by decide)] at hout
  cases hout

/-! ## Whole templates -/

theorem format_append_lits (s : Text) (tokens : List (Token Char)) (given : Given Char O) :
    format py (s.map .lit ++ tokens) given = (s ++ ·) <$> format py tokens given := by
  induction s with
  | nil => exact (id_map _).symm
  | cons c s ih =>
      rw [List.map_cons, List.cons_append, format, ih]
      cases format py tokens given <;> rfl

theorem format_render (tokens : List (Token (Char × Mark))) {given : Given (Char × Mark) O}
    (h : SoundGiven given) :
    format py (tokens.flatMap renderToken) (renderGiven given) = render <$> format py tokens given := by
  induction tokens generalizing given with
  | nil =>
      cases given with
      | tuple rest => cases rest <;> rfl
      | mapping items next => rfl
  | cons token tokens ih =>
      rw [List.flatMap_cons]
      cases token with
      | lit x =>
          obtain ⟨c, mark⟩ := x
          cases mark with
          | kept =>
              change format py (.lit c :: tokens.flatMap renderToken) (renderGiven given) = _
              rw [format, format, ih h]
              cases format py tokens given <;> rfl
          | first =>
              rw [renderToken, format_append_lits, ih h, format]
              cases format py tokens given <;> rfl
          | rest =>
              rw [renderToken, List.nil_append, ih h, format]
              cases format py tokens given <;> rfl
      | conv c =>
          change format py (.conv ⟨c.key.map render, c.head, c.type⟩ :: tokens.flatMap renderToken)
            (renderGiven given) = _
          rw [format, format, runConversion_render py h]
          cases hrun : runConversion py c given with
          | error e => rfl
          | ok x =>
              obtain ⟨written, given'⟩ := x
              have hsound := (runConversion_sound py h hrun).2.1
              change (do
                let out ← format py (tokens.flatMap renderToken) (renderGiven given')
                return render written ++ out) = render <$> (do
                let out ← format py tokens given'
                return written ++ out)
              rw [ih hsound]
              cases format py tokens given' with
              | error e => rfl
              | ok out => exact congrArg Except.ok (render_append written out).symm
      | bad e => rfl

/-! ### Where the marks of the outcome are -/

/-- The marks of what a template writes itself are in their places. -/
def PlacedTokens : Prev → List (Token (Char × Mark)) → Prop
  | prev, .lit (c, mark) :: tokens => prev.Allows c mark ∧ PlacedTokens (.next c mark) tokens
  | _, .conv c :: tokens => c.type ≠ ':' → PlacedTokens .other tokens
  | _, _ => True

/-- What is read inside a conversion begins with it, whatever stood before. -/
def PlacedFrom (prev : Prev) : Scan (Char × Mark) → List (Token (Char × Mark)) → Prop
  | .text, tokens => PlacedTokens prev tokens
  | _, tokens => ∀ prev, PlacedTokens prev tokens

theorem placedFrom_keyStep {prev : Prev} {depth : ℕ} {key : Marked} {a : Char × Mark}
    {tokens : List (Token (Char × Mark))} (h : PlacedFrom prev (keyStep depth key a) tokens) (prev' : Prev) :
    PlacedTokens prev' tokens := by
  unfold keyStep at h
  split at h
  · exact h prev'
  · split at h
    · cases depth <;> exact h prev'
    · exact h prev'

theorem placed_tokenize {m : Marked} {prev : Prev} {scan : Scan (Char × Mark)} (h : Placed prev m)
    (hscan : Unbroken prev scan) : PlacedFrom prev scan (tokenize scan m) := by
  induction m generalizing prev scan with
  | nil =>
      cases scan with
      | text => trivial
      | key depth key => exact fun _ ↦ trivial
      | spec phase key head => exact fun _ ↦ trivial
  | cons x m ih =>
      obtain ⟨c, mark⟩ := x
      cases scan with
      | text =>
          by_cases hpercent : c = '%'
          · subst hpercent
            cases mark with
            | kept =>
                have hspec : Unbroken (.next '%' .kept) (.spec .start none {}) :=
                  unbroken_spec (by decide) _ _ _
                exact ih h.2 hspec prev
            | first => exact absurd rfl h.1.2.1
            | rest => exact absurd rfl h.1.2.1
          · rw [tokenize_text hpercent]
            exact ⟨h.1, ih h.2 (unbroken_text _)⟩
      | key depth key =>
          intro prev'
          cases mark with
          | kept => exact placedFrom_keyStep (ih h.2 (unbroken_keyStep depth key c)) prev'
          | first =>
              rw [tokenize, keyStep_eq h.1.2.2.1 h.1.2.2.2]
              exact ih h.2 (unbroken_key _ _ _) prev'
          | rest =>
              rw [tokenize, keyStep_eq h.1.2.2.1 h.1.2.2.2]
              exact ih h.2 (unbroken_key _ _ _) prev'
      | spec phase key head =>
          intro prev'
          cases mark with
          | kept =>
              cases hstep : specStep phase head c with
              | percent =>
                  rw [tokenize_percent (a := (c, Mark.kept)) hstep]
                  exact ⟨trivial, ih h.2 (unbroken_text _)⟩
              | key =>
                  rw [tokenize_key (a := (c, Mark.kept)) hstep]
                  exact ih h.2 (unbroken_key _ 0 []) prev'
              | more phase head =>
                  rw [tokenize_more (a := (c, Mark.kept)) hstep]
                  exact ih h.2 (unbroken_spec (ne_colon_of_more hstep) phase key head) prev'
              | done =>
                  rw [tokenize_done (a := (c, Mark.kept)) hstep]
                  intro hcolon
                  have hc : c ≠ ':' := hcolon
                  have hrest := ih h.2 (unbroken_text _)
                  rw [next_kept hc] at hrest
                  exact hrest
          | first =>
              have hnever := h.1.1.symm.trans hscan
              cases hnever
          | rest =>
              have hnever := h.1.1.symm.trans hscan
              cases hnever

theorem placed_format {tokens : List (Token (Char × Mark))} {prev : Prev}
    {given : Given (Char × Mark) O} {out : Marked} (htokens : PlacedTokens prev tokens)
    (h : SoundGiven given) (hout : format py tokens given = .ok out) : Placed prev out := by
  induction tokens generalizing prev given out with
  | nil =>
      obtain ⟨_, -, hout⟩ := Except.bind_eq_ok_iff.mp hout
      obtain rfl := Except.ok.inj hout
      trivial
  | cons token tokens ih =>
      cases token with
      | lit x =>
          obtain ⟨c, mark⟩ := x
          obtain ⟨rest, hrest, hout⟩ := Except.bind_eq_ok_iff.mp hout
          obtain rfl := Except.ok.inj hout
          exact ⟨htokens.1, ih htokens.2 h hrest⟩
      | conv c =>
          obtain ⟨⟨written, given'⟩, hrun, hout⟩ := Except.bind_eq_ok_iff.mp hout
          obtain ⟨rest, hrest, hout⟩ := Except.bind_eq_ok_iff.mp hout
          obtain rfl := Except.ok.inj hout
          obtain ⟨hwritten, hsound, htype⟩ := runConversion_sound py h hrun
          exact placed_append (placed_of_other hwritten prev) (ih (htokens htype) hsound hrest)
      | bad e => cases hout

/-! ### `%` -/

def renderArgs : Args (Char × Mark) O → Args Char O
  | .tuple args => .tuple (args.map renderArg)
  | .mapping items object =>
      .mapping (items.map fun item ↦ (renderArg item.1, renderArg item.2)) object

def SoundArgs : Args (Char × Mark) O → Prop
  | .tuple args => ∀ arg ∈ args, SoundArg arg
  | .mapping items _ => ∀ item ∈ items, SoundArg item.2

theorem soundGiven_start {args : Args (Char × Mark) O} (h : SoundArgs args) : SoundGiven args.start := by
  cases args with
  | tuple args => exact h
  | mapping items object =>
      refine ⟨h, ?_⟩
      rintro _ ⟨rfl⟩
      trivial

/-- Redacting first and formatting then is rendering what the marked parts give. -/
theorem percent_render {template : Marked} {args : Args (Char × Mark) O} (htemplate : Placed .other template)
    (hargs : SoundArgs args) :
    percent py (render template) (renderArgs args) = render <$> percent py template args := by
  have htokens := tokenize_render htemplate (unbroken_text .other)
  have hstart : (renderArgs args).start = renderGiven args.start := by cases args <;> rfl
  rw [percent, percent, hstart, ← format_render py _ (soundGiven_start hargs), ← htokens]
  rfl

theorem placed_percent {template out : Marked} {args : Args (Char × Mark) O}
    (htemplate : Placed .other template) (hargs : SoundArgs args)
    (hout : percent py template args = .ok out) : Placed .other out :=
  placed_format py (placed_tokenize htemplate (unbroken_text .other)) (soundGiven_start hargs) hout

end Arguments

end OpenHtf.MacFilter
