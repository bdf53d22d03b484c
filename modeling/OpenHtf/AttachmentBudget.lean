import OpenHtf.Lib.Packing
import OpenHtf.TestRunsConverter

/-!
# Partial uploads of attachments

`mfg_event_converter.PhaseCopier.copy_attachments`.  With a cache of attachments
that were uploaded before, an event takes only so many new bytes, and the rest is
left for the next upload.
-/

set_option autoImplicit false

namespace OpenHtf.MfgEventConverter

open UniqueNames (Name Phase sortedItems)
open TestRuns (InformationTag mimetypeMap)

/-! ## The data -/

/-- A string, or the tag that converted measurements have in its place. -/
inductive Mimetype where
  | text (s : String)
  | MULTIDIM_JSON

structure Attachment (β : Type) where
  data : β
  size : ℕ
  mimetype : Mimetype

structure AttachmentCacheKey where
  name : Name
  size : ℕ
  deriving DecidableEq

inductive AttachmentValue (β : Type) where
  | valueBinary (data : β)
  | existingBlobref (blobId : List UInt8) (size : ℕ)

structure EventAttachment (β : Type) where
  name : Name
  value : AttachmentValue β
  type : Option InformationTag

structure MfgEvent (β : Type) where
  attachment : List (EventAttachment β)

abbrev AttachmentCache (β : Type) := Dict AttachmentCacheKey (EventAttachment β)

/-- `int(0.9 * (1 << 30))`. -/
def MAX_TOTAL_ATTACHMENT_BYTES : ℕ := 966367641

variable {δ μ β : Type}

structure PhaseCopier (δ μ β : Type) where
  phases : List (Phase δ μ (Attachment β))
  usingPartialUploads : Bool
  attachmentCache : AttachmentCache β

namespace PhaseCopier

def init (allPhases : List (Phase δ μ (Attachment β))) (attachmentCache : Option (AttachmentCache β)) :
    PhaseCopier δ μ β where
  phases := allPhases
  usingPartialUploads := attachmentCache.isSome
  attachmentCache := attachmentCache.getD ⟨[], List.nodup_nil⟩

/-! ## Copying -/

/-- The event and the local variables of `copy_attachments`. -/
structure Copying (β : Type) where
  mfgEvent : MfgEvent β
  valueCopiedAttachmentSizes : List ℕ := []
  skippedAttachmentNames : List Name := []

/-- `_copy_attachment`. -/
def copyAttachment (name : Name) (data : β) (mimetype : Mimetype) (mfgEvent : MfgEvent β) : MfgEvent β :=
  { attachment := mfgEvent.attachment ++ [{
      name := name
      value := .valueBinary data
      type :=
        match mimetype with
        | .text s => some ((mimetypeMap s).getD .BINARY)
        | .MULTIDIM_JSON => some .MULTIDIM_JSON }] }

def cacheKey (item : Name × Attachment β) : AttachmentCacheKey := ⟨item.1, item.2.size⟩

/-- The body of the inner loop of `copy_attachments`. -/
def copyItem (copier : PhaseCopier δ μ β) (s : Copying β) (item : Name × Attachment β) : Copying β :=
  match copier.attachmentCache.lookup (cacheKey item) with
  | some cached => { s with mfgEvent := ⟨s.mfgEvent.attachment ++ [cached]⟩ }
  | none =>
    if copier.usingPartialUploads && !s.valueCopiedAttachmentSizes.isEmpty &&
        decide (s.valueCopiedAttachmentSizes.sum + item.2.size > MAX_TOTAL_ATTACHMENT_BYTES) then
      { s with skippedAttachmentNames := s.skippedAttachmentNames ++ [item.1] }
    else
      { s with
        valueCopiedAttachmentSizes := s.valueCopiedAttachmentSizes ++ [item.2.size]
        mfgEvent := copyAttachment item.1 item.2.data item.2.mimetype s.mfgEvent }

def copyPhase (copier : PhaseCopier δ μ β) (s : Copying β) (phase : Phase δ μ (Attachment β)) : Copying β :=
  (sortedItems phase.attachments).foldl copier.copyItem s

def copyAttachments (copier : PhaseCopier δ μ β) (mfgEvent : MfgEvent β) : MfgEvent β × Bool :=
  let s := copier.phases.foldl copier.copyPhase { mfgEvent := mfgEvent }
  (s.mfgEvent, s.skippedAttachmentNames.isEmpty)

/-! ## What is packed -/

/-- The attachments in the order of the loops. -/
def attachments (copier : PhaseCopier δ μ β) : List (Name × Attachment β) :=
  copier.phases.flatMap fun phase ↦ sortedItems phase.attachments

def inCache (copier : PhaseCopier δ μ β) (item : Name × Attachment β) : Bool :=
  (copier.attachmentCache.lookup (cacheKey item)).isSome

/-- What is in the cache is done, what is copied by value is taken, and what is skipped is left. -/
def packing (copier : PhaseCopier δ μ β) : Packing (Name × Attachment β) where
  bounded := copier.usingPartialUploads
  limit := MAX_TOTAL_ATTACHMENT_BYTES
  size := (·.2.size)
  done := copier.inCache

def fates (copier : PhaseCopier δ μ β) : List ((Name × Attachment β) × Fate) :=
  copier.packing.fates [] copier.attachments

/-- What the event gets for an attachment. -/
def appended (copier : PhaseCopier δ μ β) : (Name × Attachment β) × Fate → List (EventAttachment β)
  | (item, .done) => (copier.attachmentCache.lookup (cacheKey item)).toList
  | (item, .taken) => (copyAttachment item.1 item.2.data item.2.mimetype ⟨[]⟩).attachment
  | (_, .left) => []

/-- Each attachment has one of three fates, from which the result follows, and a new
one is copied if there is any. -/
structure WithinBudget (copier : PhaseCopier δ μ β) (mfgEvent : MfgEvent β) : Prop where
  once : copier.fates.map Prod.fst = copier.attachments
  event : (copier.copyAttachments mfgEvent).1.attachment =
    mfgEvent.attachment ++ copier.fates.flatMap copier.appended
  returns : (copier.copyAttachments mfgEvent).2 = true ↔ ∀ f ∈ copier.fates, f.2 ≠ .left
  cached : ∀ f ∈ copier.fates, f.2 = .done ↔ copier.inCache f.1 = true
  withoutCache : copier.usingPartialUploads = false → ∀ f ∈ copier.fates, f.2 ≠ .left
  budget : copier.usingPartialUploads = true → (copier.packing.takenSizes copier.fates).sum ≤
    max MAX_TOTAL_ATTACHMENT_BYTES ((copier.packing.takenSizes copier.fates).headD 0)
  progress : (∃ item ∈ copier.attachments, copier.inCache item = false) → ∃ f ∈ copier.fates, f.2 = .taken

/-- The cache with the attachments that were copied by value, under what came of their upload. -/
def cacheNext (uploaded : AttachmentCacheKey → EventAttachment β) (copier : PhaseCopier δ μ β) :
    AttachmentCache β :=
  ((copier.fates.filter (·.2 = .taken)).map (cacheKey ·.1)).foldl
    (fun cache key ↦ cache.set key (uploaded key)) copier.attachmentCache

/-- The copier of each cycle. -/
def cycle (uploaded : AttachmentCacheKey → EventAttachment β) (phases : List (Phase δ μ (Attachment β)))
    (cache : AttachmentCache β) : ℕ → PhaseCopier δ μ β
  | 0 => init phases (some cache)
  | k + 1 => init phases (some (cacheNext uploaded (cycle uploaded phases cache k)))

/-- As many cycles as there are attachments bring all of them into the cache, and one of
these cycles, or the only one, skips nothing. -/
structure CompletesUploads (uploaded : AttachmentCacheKey → EventAttachment β)
    (phases : List (Phase δ μ (Attachment β))) (cache : AttachmentCache β) : Prop where
  cached : ∀ item ∈ (init phases (some cache)).attachments,
    (cycle uploaded phases cache (init phases (some cache)).attachments.length).inCache item = true
  returns : ∃ k < max 1 (init phases (some cache)).attachments.length,
    ∀ mfgEvent, ((cycle uploaded phases cache k).copyAttachments mfgEvent).2 = true

/-! ## One call -/

section Call

variable (copier : PhaseCopier δ μ β)

/-- The body of the loop, by the fate of the attachment. -/
theorem copyItem_eq (s : Copying β) (item : Name × Attachment β) :
    copier.copyItem s item =
      { mfgEvent := ⟨s.mfgEvent.attachment ++
          copier.appended (item, copier.packing.fate s.valueCopiedAttachmentSizes item)⟩
        valueCopiedAttachmentSizes :=
          if copier.packing.fate s.valueCopiedAttachmentSizes item = .taken then
            s.valueCopiedAttachmentSizes ++ [item.2.size]
          else s.valueCopiedAttachmentSizes
        skippedAttachmentNames :=
          if copier.packing.fate s.valueCopiedAttachmentSizes item = .left then
            s.skippedAttachmentNames ++ [item.1]
          else s.skippedAttachmentNames } := by
  unfold copyItem
  cases hcached : copier.attachmentCache.lookup (cacheKey item) with
  | some cached =>
      have hdone : copier.inCache item = true := by rw [inCache, hcached, Option.isSome_some]
      have hfate := (copier.packing.fate_eq_done_iff s.valueCopiedAttachmentSizes item).mpr hdone
      simp [hfate, appended, hcached]
  | none =>
      have hnew : ¬copier.packing.done item = true := by simp [packing, inCache, hcached]
      dsimp only
      split
      · rename_i hover
        have hfate : copier.packing.fate s.valueCopiedAttachmentSizes item = .left := by
          rw [Packing.fate, if_neg hnew]
          exact if_pos hover
        simp [hfate, appended]
      · rename_i hfits
        have hfate : copier.packing.fate s.valueCopiedAttachmentSizes item = .taken := by
          rw [Packing.fate, if_neg hnew]
          exact if_neg hfits
        simp [hfate, appended, copyAttachment]

theorem foldl_copyItem (s : Copying β) (items : List (Name × Attachment β)) :
    items.foldl copier.copyItem s =
      { mfgEvent := ⟨s.mfgEvent.attachment ++
          (copier.packing.fates s.valueCopiedAttachmentSizes items).flatMap copier.appended⟩
        valueCopiedAttachmentSizes := s.valueCopiedAttachmentSizes ++
          copier.packing.takenSizes (copier.packing.fates s.valueCopiedAttachmentSizes items)
        skippedAttachmentNames := s.skippedAttachmentNames ++
          ((copier.packing.fates s.valueCopiedAttachmentSizes items).filter (·.2 = .left)).map (·.1.1) } := by
  induction items generalizing s with
  | nil => simp [Packing.fates, Packing.takenSizes]
  | cons item items ih =>
      rw [List.foldl_cons, ih, copyItem_eq, Packing.fates]
      cases hfate : copier.packing.fate s.valueCopiedAttachmentSizes item <;>
        simp [Packing.takenSizes, packing]

theorem copyAttachments_eq (mfgEvent : MfgEvent β) :
    copier.copyAttachments mfgEvent =
      (⟨mfgEvent.attachment ++ copier.fates.flatMap copier.appended⟩,
        ((copier.fates.filter (·.2 = .left)).map (·.1.1)).isEmpty) := by
  have hloops : copier.phases.foldl copier.copyPhase { mfgEvent := mfgEvent } =
      copier.attachments.foldl copier.copyItem { mfgEvent := mfgEvent } := List.foldl_flatMap.symm
  rw [copyAttachments, hloops, foldl_copyItem]
  simp [fates]

theorem copyAttachments_returns (mfgEvent : MfgEvent β) :
    (copier.copyAttachments mfgEvent).2 = true ↔ ∀ f ∈ copier.fates, f.2 ≠ .left := by
  rw [copyAttachments_eq]
  simp [List.filter_eq_nil_iff]

theorem withinBudget (mfgEvent : MfgEvent β) : copier.WithinBudget mfgEvent where
  once := copier.packing.map_fst_fates [] copier.attachments
  event := by rw [copyAttachments_eq]
  returns := copier.copyAttachments_returns mfgEvent
  cached _ hf := copier.packing.fates_done_iff hf
  withoutCache hpartial _ hf := copier.packing.fates_ne_left hpartial hf
  budget hpartial :=
    have hstart : copier.packing.Within [] := Nat.zero_le _
    copier.packing.within_fates hpartial hstart copier.attachments
  progress := copier.packing.exists_taken

end Call

/-! ## Repeated uploads -/

section Cycles

variable (uploaded : AttachmentCacheKey → EventAttachment β) (phases : List (Phase δ μ (Attachment β)))
  (cache : AttachmentCache β)

theorem attachments_cycle (k : ℕ) :
    (cycle uploaded phases cache k).attachments = phases.flatMap fun phase ↦ sortedItems phase.attachments := by
  cases k <;> rfl

theorem fates_cycle (k : ℕ) : (cycle uploaded phases cache k).fates =
    (cycle uploaded phases cache k).packing.fates [] (phases.flatMap fun phase ↦ sortedItems phase.attachments) := by
  rw [fates, attachments_cycle]

/-- The cache of the next cycle has what was copied by value, too. -/
theorem next_cycle (k : ℕ) :
    (cycle uploaded phases cache k).packing.Next (cycle uploaded phases cache (k + 1)).packing
      (phases.flatMap fun phase ↦ sortedItems phase.attachments) := by
  intro f hf hleft
  apply (Dict.isSome_lookup_foldl_set uploaded _ _ _).mpr
  cases hfate : f.2 with
  | done => exact .inr ((Packing.fates_done_iff _ hf).mp hfate)
  | taken =>
      left
      rw [fates_cycle]
      exact List.mem_map_of_mem (List.mem_filter.mpr ⟨hf, by simp [hfate]⟩)
  | left => exact absurd hfate hleft

theorem completesUploads : CompletesUploads uploaded phases cache where
  cached item hitem := Packing.done_rounds (next_cycle uploaded phases cache) hitem
  returns := by
    refine ⟨(init phases (some cache)).attachments.length - 1, by omega, fun mfgEvent ↦ ?_⟩
    rw [copyAttachments_returns, fates_cycle]
    intro f hf
    exact Packing.ne_left_rounds (next_cycle uploaded phases cache) hf

end Cycles

/-- Every upload keeps its budget and makes progress, so that repeated uploads come to an end. -/
theorem copyAttachments_progress (phases : List (Phase δ μ (Attachment β)))
    (attachmentCache : Option (AttachmentCache β)) (mfgEvent : MfgEvent β)
    (uploaded : AttachmentCacheKey → EventAttachment β) (cache : AttachmentCache β) :
    (init phases attachmentCache).WithinBudget mfgEvent ∧ CompletesUploads uploaded phases cache :=
  ⟨withinBudget _ mfgEvent, completesUploads uploaded phases cache⟩

end PhaseCopier

end OpenHtf.MfgEventConverter
