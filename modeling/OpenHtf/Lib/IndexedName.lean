import Mathlib.Data.List.DropRight
import Mathlib.Tactic.Common

/-!
# Names with an index before their extension

`os.path.splitext` on names as lists of characters, and names that get a number
between their main part and their extension.  Such a name tells which name and
which number it is made from.
-/

set_option autoImplicit false

namespace List

variable {α : Type*} {p : α → Bool} {l s : List α}

theorem rtakeWhile_append_of_forall (hs : ∀ x ∈ s, p x) : (l ++ s).rtakeWhile p = l.rtakeWhile p ++ s := by
  have htake : s.reverse.takeWhile p = s.reverse := takeWhile_eq_self_iff.mpr (by simpa using hs)
  rw [rtakeWhile, reverse_append, takeWhile_append, htake]
  simp [rtakeWhile]

theorem rtakeWhile_append_cons {c : α} (hc : ¬p c) (hs : ∀ x ∈ s, p x) :
    (l ++ c :: s).rtakeWhile p = s := by
  rw [append_cons, rtakeWhile_append_of_forall hs, rtakeWhile_concat_neg _ _ _ hc, nil_append]

theorem rdropWhile_append_of_forall (hs : ∀ x ∈ s, p x) : (l ++ s).rdropWhile p = l.rdropWhile p := by
  have hdrop : s.reverse.dropWhile p = [] := dropWhile_eq_nil_iff.mpr (by simpa using hs)
  rw [rdropWhile, reverse_append, dropWhile_append, hdrop]
  simp [rdropWhile]

end List

/-- The name of the file in a path. -/
def fileName (path : List Char) : List Char := path.rtakeWhile (· ≠ '/')

/-- What is before the last dot of a file name. -/
def stem (file : List Char) : List Char := (file.rdropWhile (· ≠ '.')).dropLast

/-- `os.path.splitext`: the extension starts at the last dot of the file name,
unless there are only dots before it. -/
def splitext (path : List Char) : List Char × List Char :=
  haveI : Decidable (∀ c ∈ stem (fileName path), c = '.') := List.decidableBAll ..
  if ∀ c ∈ stem (fileName path), c = '.' then (path, [])
  else (path.rdropWhile (· ≠ '/') ++ stem (fileName path),
    '.' :: (fileName path).rtakeWhile (· ≠ '.'))

/-- `'%s_%d%s' % (main, k, ext)`. -/
def withIndex (name : List Char) (k : ℕ) : List Char :=
  (splitext name).1 ++ '_' :: Nat.toDigits 10 k ++ (splitext name).2

section Splitext

variable {path file main tail : List Char}

theorem stem_append_of_ne_nil (h : stem file ≠ []) :
    stem file ++ '.' :: file.rtakeWhile (· ≠ '.') = file := by
  have hne : file.rdropWhile (· ≠ '.') ≠ [] := fun hnil ↦ h (by rw [stem, hnil]; rfl)
  have hlast : (file.rdropWhile (· ≠ '.')).getLast hne = '.' := by
    simpa using List.rdropWhile_last_not (fun c : Char ↦ decide (c ≠ '.')) file hne
  have hsplit := List.dropLast_append_getLast hne
  rw [hlast] at hsplit
  calc
    _ = (stem file ++ ['.']) ++ file.rtakeWhile (· ≠ '.') := by simp
    _ = file.rdropWhile (· ≠ '.') ++ file.rtakeWhile (· ≠ '.') := by rw [stem, hsplit]
    _ = file := List.rdropWhile_append_rtakeWhile

theorem splitext_append (path : List Char) : (splitext path).1 ++ (splitext path).2 = path := by
  unfold splitext
  split
  · exact List.append_nil path
  · rename_i hdots
    have hne : stem (fileName path) ≠ [] := fun hnil ↦ hdots (by simp [hnil])
    dsimp only
    rw [List.append_assoc, stem_append_of_ne_nil hne]
    exact List.rdropWhile_append_rtakeWhile

/-- Something after a dot that is not the first character of the file name. -/
theorem splitext_of_dot (hslash : '/' ∉ tail) (hdot : '.' ∉ tail)
    (hmain : ∃ c ∈ fileName main, c ≠ '.') : splitext (main ++ '.' :: tail) = (main, '.' :: tail) := by
  have hslash' : ∀ c ∈ '.' :: tail, decide (c ≠ '/') = true := by
    intro c hc
    rcases List.mem_cons.mp hc with rfl | hc
    · rfl
    · exact decide_eq_true fun heq ↦ hslash (heq ▸ hc)
  have hdot' : ∀ c ∈ tail, decide (c ≠ '.') = true := fun c hc ↦ decide_eq_true fun heq ↦ hdot (heq ▸ hc)
  have hfile : fileName (main ++ '.' :: tail) = (fileName main ++ ['.']) ++ tail := by
    rw [fileName, List.rtakeWhile_append_of_forall hslash', fileName]
    simp
  have hstem : stem (fileName (main ++ '.' :: tail)) = fileName main := by
    rw [stem, hfile, List.rdropWhile_append_of_forall hdot', List.rdropWhile_concat_neg _ _ _ (by simp)]
    simp
  have htail : (fileName (main ++ '.' :: tail)).rtakeWhile (· ≠ '.') = tail := by
    rw [hfile, List.append_assoc]
    exact List.rtakeWhile_append_cons (by simp) hdot'
  have hnot : ¬∀ c ∈ fileName main, c = '.' := by
    obtain ⟨c, hc, hne⟩ := hmain
    exact fun hall ↦ hne (hall c hc)
  rw [splitext, hstem, if_neg hnot, htail, List.rdropWhile_append_of_forall hslash']
  exact Prod.ext List.rdropWhile_append_rtakeWhile rfl

/-- An extension has one dot, which it starts with. -/
theorem splitext_snd (path : List Char) :
    (splitext path).2 = [] ∨ ∃ tail, (splitext path).2 = '.' :: tail ∧ '/' ∉ tail ∧ '.' ∉ tail := by
  unfold splitext
  split
  · exact .inl rfl
  · refine .inr ⟨_, rfl, fun hslash ↦ ?_, fun hdot ↦ ?_⟩
    · have hmem := (List.rtakeWhile_suffix (fun c : Char ↦ decide (c ≠ '.')) (fileName path)).subset hslash
      simpa using List.mem_rtakeWhile_imp hmem
    · simpa using List.mem_rtakeWhile_imp hdot

end Splitext

section Index

variable {name name' : List Char} {k k' : ℕ}

theorem not_mem_toDigits {c : Char} (hc : c.isDigit = false) (k : ℕ) : c ∉ Nat.toDigits 10 k := by
  intro hmem
  rw [Nat.isDigit_of_mem_toDigits (by decide) (by decide) hmem] at hc
  cases hc

/-- The index and the underscore before it belong to the last part of the name. -/
theorem not_mem_index {c : Char} (hc : c.isDigit = false) (hne : c ≠ '_') (k : ℕ) :
    c ∉ '_' :: Nat.toDigits 10 k := by
  rw [List.mem_cons, not_or]
  exact ⟨hne, not_mem_toDigits hc k⟩

theorem fileName_index (main : List Char) (k : ℕ) :
    fileName (main ++ '_' :: Nat.toDigits 10 k) = fileName main ++ '_' :: Nat.toDigits 10 k :=
  List.rtakeWhile_append_of_forall fun c hc ↦ decide_eq_true fun heq ↦
    not_mem_index (by decide) (by decide) k (heq ▸ hc)

theorem splitext_withIndex (name : List Char) (k : ℕ) :
    splitext (withIndex name k) = ((splitext name).1 ++ '_' :: Nat.toDigits 10 k, (splitext name).2) := by
  rcases splitext_snd name with hext | ⟨tail, hext, hslash, hdot⟩
  · -- Without an extension the index is at the end of the name.
    have hmain : (splitext name).1 = name := by
      have happend := splitext_append name
      rwa [hext, List.append_nil] at happend
    have hdots : ∀ c ∈ stem (fileName name), c = '.' := by
      by_contra hdots
      simp [splitext, hdots] at hext
    have hstem : stem (fileName (name ++ '_' :: Nat.toDigits 10 k)) = stem (fileName name) := by
      rw [fileName_index, stem, List.rdropWhile_append_of_forall, stem]
      exact fun c hc ↦ decide_eq_true fun heq ↦ not_mem_index (by decide) (by decide) k (heq ▸ hc)
    rw [withIndex, hext, hmain, List.append_nil, splitext, hstem, if_pos hdots]
  · rw [withIndex, hext]
    refine splitext_of_dot hslash hdot ⟨'_', ?_, by decide⟩
    rw [fileName_index]
    simp

theorem withIndex_inj : withIndex name k = withIndex name' k' ↔ name = name' ∧ k = k' := by
  constructor
  · intro h
    have hsplit := congrArg splitext h
    rw [splitext_withIndex, splitext_withIndex, Prod.mk.injEq] at hsplit
    obtain ⟨hmain, hext⟩ := hsplit
    have hdigits : Nat.toDigits 10 k = Nat.toDigits 10 k' := by
      have htake := congrArg (List.rtakeWhile (· ≠ '_')) hmain
      have hno : ∀ k, ∀ c ∈ Nat.toDigits 10 k, decide (c ≠ '_') = true :=
        fun k c hc ↦ decide_eq_true fun heq ↦ not_mem_toDigits (by decide) k (heq ▸ hc)
      rwa [List.rtakeWhile_append_cons (by simp) (hno k),
        List.rtakeWhile_append_cons (by simp) (hno k')] at htake
    have hk : k = k' := by
      rw [← Nat.ofDigitChars_ten_toDigits (n := k), hdigits, Nat.ofDigitChars_ten_toDigits]
    rw [hdigits] at hmain
    refine ⟨?_, hk⟩
    rw [← splitext_append name, ← splitext_append name', hext, List.append_cancel_right hmain]
  · rintro ⟨rfl, rfl⟩
    rfl

/-- A name comes before those that are made from it. -/
theorem lt_withIndex (name : List Char) (k : ℕ) : name < withIndex name k := by
  have hlt : (splitext name).2 < '_' :: Nat.toDigits 10 k ++ (splitext name).2 := by
    rcases splitext_snd name with hext | ⟨tail, hext, -⟩
    · rw [hext]
      exact List.Lex.nil
    · rw [hext]
      exact List.Lex.rel (by decide)
  calc
    name = (splitext name).1 ++ (splitext name).2 := (splitext_append name).symm
    _ < (splitext name).1 ++ ('_' :: Nat.toDigits 10 k ++ (splitext name).2) := List.append_left_lt hlt
    _ = withIndex name k := by simp [withIndex]

end Index
