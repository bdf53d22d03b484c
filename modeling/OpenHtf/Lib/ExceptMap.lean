import Mathlib.Data.List.Forall2

/-!
# Maps that may raise

When a computation in `Except` comes to a result, and what the results of a map
over a list are then: one for each element, in its place.
-/

set_option autoImplicit false

universe u v

variable {ε : Type u} {α β γ : Type v}

theorem Except.bind_eq_ok_iff {x : Except ε α} {f : α → Except ε β} {b : β} :
    x >>= f = .ok b ↔ ∃ a, x = .ok a ∧ f a = .ok b := by
  cases x with
  | error e => exact ⟨nofun, nofun⟩
  | ok a =>
      constructor
      · intro h
        exact ⟨a, rfl, h⟩
      · rintro ⟨a', h, hf⟩
        obtain rfl := Except.ok.inj h
        exact hf

theorem Except.map_eq_ok_iff {x : Except ε α} {f : α → β} {b : β} :
    f <$> x = .ok b ↔ ∃ a, x = .ok a ∧ f a = b := by
  cases x with
  | error e => exact ⟨nofun, nofun⟩
  | ok a =>
      constructor
      · intro h
        exact ⟨a, rfl, Except.ok.inj h⟩
      · rintro ⟨a', h, hf⟩
        obtain rfl := Except.ok.inj h
        exact congrArg Except.ok hf

/-- Two computations that agree up to `φ` go on in the same way up to `ψ`. -/
theorem Except.map_bind_eq {α' β' : Type v} {x : Except ε α} {φ : α → α'} {f : α' → Except ε β'}
    {g : α → Except ε β} {ψ : β → β'} (h : ∀ a, x = .ok a → f (φ a) = ψ <$> g a) :
    (φ <$> x) >>= f = ψ <$> (x >>= g) := by
  cases x with
  | error e => rfl
  | ok a => exact h a rfl

/-- `f` came to the result `b` for `a`. -/
def Returned (f : α → Except ε β) (a : α) (b : β) : Prop := f a = .ok b

theorem mapM_eq_ok_iff {f : α → Except ε β} {as : List α} {bs : List β} :
    as.mapM f = .ok bs ↔ List.Forall₂ (Returned f) as bs := by
  induction as generalizing bs with
  | nil =>
      rw [List.mapM_nil, List.forall₂_nil_left_iff]
      constructor
      · intro h
        exact (Except.ok.inj h).symm
      · rintro rfl
        rfl
  | cons a as ih =>
      rw [List.mapM_cons, Except.bind_eq_ok_iff, List.forall₂_cons_left_iff]
      constructor
      · rintro ⟨b, hb, h⟩
        obtain ⟨bs', hbs, h⟩ := Except.bind_eq_ok_iff.mp h
        exact ⟨b, bs', hb, ih.mp hbs, (Except.ok.inj h).symm⟩
      · rintro ⟨b, bs', hb, hbs, rfl⟩
        exact ⟨b, hb, Except.bind_eq_ok_iff.mpr ⟨bs', ih.mpr hbs, rfl⟩⟩

theorem forall₂_returned_unique {f : α → Except ε β} {as : List α} {bs bs' : List β}
    (h : List.Forall₂ (Returned f) as bs) (h' : List.Forall₂ (Returned f) as bs') : bs = bs' :=
  Except.ok.inj ((mapM_eq_ok_iff.mpr h).symm.trans (mapM_eq_ok_iff.mpr h'))

/-- The results of one function after the other. -/
theorem forall₂_returned_bind {f : α → Except ε β} {g : β → Except ε γ} {as : List α}
    {cs : List γ} :
    List.Forall₂ (Returned fun a ↦ f a >>= g) as cs ↔
      ∃ bs, List.Forall₂ (Returned f) as bs ∧ List.Forall₂ (Returned g) bs cs := by
  induction as generalizing cs with
  | nil => simp
  | cons a as ih =>
      rw [List.forall₂_cons_left_iff]
      constructor
      · rintro ⟨c, cs', hc, hcs, rfl⟩
        obtain ⟨b, hb, hc⟩ := Except.bind_eq_ok_iff.mp hc
        obtain ⟨bs, hbs, hcs⟩ := ih.mp hcs
        exact ⟨b :: bs, .cons hb hbs, .cons hc hcs⟩
      · rintro ⟨_, hbs, hcs⟩
        obtain _ | ⟨hb, hbs⟩ := hbs
        obtain _ | ⟨hc, hcs⟩ := hcs
        exact ⟨_, _, Except.bind_eq_ok_iff.mpr ⟨_, hb, hc⟩, ih.mpr ⟨_, hbs, hcs⟩, rfl⟩

/-- The results of a function that never raises. -/
theorem forall₂_returned_ok {f : α → β} {as : List α} {bs : List β} :
    List.Forall₂ (Returned fun a ↦ (.ok (f a) : Except ε β)) as bs ↔ bs = as.map f := by
  induction as generalizing bs with
  | nil => rw [List.forall₂_nil_left_iff, List.map_nil]
  | cons a as ih =>
      rw [List.forall₂_cons_left_iff, List.map_cons]
      constructor
      · rintro ⟨b, bs', hb, hbs, rfl⟩
        rw [← ih.mp hbs, Except.ok.inj hb]
      · rintro rfl
        exact ⟨f a, as.map f, rfl, ih.mpr rfl, rfl⟩

/-- The results of a function that returns under a condition. -/
theorem forall₂_returned_iff {f : α → Except ε β} {P : α → Prop} {r : α → β} {as : List α} {bs : List β}
    (h : ∀ a ∈ as, ∀ b, f a = .ok b ↔ P a ∧ b = r a) :
    List.Forall₂ (Returned f) as bs ↔ (∀ a ∈ as, P a) ∧ bs = as.map r := by
  induction as generalizing bs with
  | nil => simp
  | cons a as ih =>
      obtain ⟨ha, has⟩ := List.forall_mem_cons.mp h
      rw [List.forall₂_cons_left_iff, List.forall_mem_cons, List.map_cons]
      constructor
      · rintro ⟨b, bs', hb, hbs, rfl⟩
        obtain ⟨hP, rfl⟩ := (ha b).mp hb
        obtain ⟨hrest, rfl⟩ := (ih has).mp hbs
        exact ⟨⟨hP, hrest⟩, rfl⟩
      · rintro ⟨⟨hP, hrest⟩, rfl⟩
        exact ⟨r a, as.map r, (ha _).mpr ⟨hP, rfl⟩, (ih has).mpr ⟨hrest, rfl⟩, rfl⟩

/-- Results for two lists in a row, where it is known how many are for the first. -/
theorem forall₂_append_iff {R : α → β → Prop} {as as' : List α} {bs bs' : List β}
    (h : bs.length = as.length) :
    List.Forall₂ R (as ++ as') (bs ++ bs') ↔ List.Forall₂ R as bs ∧ List.Forall₂ R as' bs' := by
  induction as generalizing bs with
  | nil =>
      obtain rfl := List.length_eq_zero_iff.mp h
      simp
  | cons a as ih =>
      obtain ⟨b, bs, rfl⟩ := List.exists_cons_of_length_eq_add_one h
      rw [List.length_cons, List.length_cons, Nat.add_right_cancel_iff] at h
      simp [ih h, and_assoc]

/-! ## Pairs of lists -/

section Pairs

variable {R S : α → β → Prop} {as : List α} {bs : List β}

theorem forall₂_congr_of_mem (h : ∀ a ∈ as, ∀ b, R a b ↔ S a b) :
    List.Forall₂ R as bs ↔ List.Forall₂ S as bs := by
  induction as generalizing bs with
  | nil => rw [List.forall₂_nil_left_iff, List.forall₂_nil_left_iff]
  | cons a as ih =>
      rw [List.forall₂_cons_left_iff, List.forall₂_cons_left_iff]
      obtain ⟨ha, has⟩ := List.forall_mem_cons.mp h
      simp only [ha, ih has]

theorem exists_forall₂_congr {P : List β → Prop} (h : ∀ a ∈ as, ∀ b, R a b ↔ S a b) :
    (∃ bs, List.Forall₂ R as bs ∧ P bs) ↔ ∃ bs, List.Forall₂ S as bs ∧ P bs :=
  exists_congr fun _ ↦ and_congr_left fun _ ↦ forall₂_congr_of_mem h

theorem exists_forall₂ (h : ∀ a ∈ as, ∃ b, R a b) : ∃ bs, List.Forall₂ R as bs := by
  induction as with
  | nil => exact ⟨[], .nil⟩
  | cons a as ih =>
      obtain ⟨⟨b, hb⟩, has⟩ := List.forall_mem_cons.mp h
      obtain ⟨bs, hbs⟩ := ih has
      exact ⟨b :: bs, .cons hb hbs⟩

theorem exists_right_of_forall₂ (h : List.Forall₂ R as bs) {a : α} (ha : a ∈ as) : ∃ b ∈ bs, R a b := by
  induction h with
  | nil => cases ha
  | cons hab _ ih =>
      rcases List.mem_cons.mp ha with rfl | ha
      · exact ⟨_, List.mem_cons_self, hab⟩
      · obtain ⟨b, hb, hR⟩ := ih ha
        exact ⟨b, List.mem_cons_of_mem _ hb, hR⟩

theorem exists_left_of_forall₂ (h : List.Forall₂ R as bs) {b : β} (hb : b ∈ bs) : ∃ a ∈ as, R a b :=
  exists_right_of_forall₂ h.flip hb

theorem forall_right_of_forall₂ (h : List.Forall₂ R as bs) {P : β → Prop}
    (hP : ∀ a ∈ as, ∀ b, R a b → P b) : ∀ b ∈ bs, P b := by
  intro b hb
  obtain ⟨a, ha, hab⟩ := exists_left_of_forall₂ h hb
  exact hP a ha b hab

end Pairs
