import Mathlib.Data.List.Basic

/-!
# The read buffer of a stream

`_read_buffer` and `_buffer_size` of `AdbStreamTransport`: what the stream has
received and not returned yet, piece by piece, and how long it is in all.
-/

set_option autoImplicit false

namespace OpenHtf.Adb

theorem size_nil {β : Type} : 0 = ([] : List (List β)).flatten.length := rfl

structure ReadBuffer (β : Type) where
  pieces : List (List β) := []
  size : ℕ := 0
  size_eq : size = pieces.flatten.length := by first | exact size_nil | rfl
  deriving DecidableEq

namespace ReadBuffer

variable {β : Type}

def contents (b : ReadBuffer β) : List β := b.pieces.flatten

/-- The data of a WRTE is appended by `_handle_message`. -/
def append (b : ReadBuffer β) (data : List β) : ReadBuffer β where
  pieces := b.pieces ++ [data]
  size := b.size + data.length
  size_eq := by
    rw [b.size_eq]
    simp

/-- What `AdbStreamTransport.read` waits for. -/
def Ready (b : ReadBuffer β) (length : ℕ) : Prop := b.size ≠ 0 ∧ length ≤ b.size

instance (b : ReadBuffer β) (length : ℕ) : Decidable (b.Ready length) :=
  inferInstanceAs (Decidable (b.size ≠ 0 ∧ length ≤ b.size))

/-- A buffer of what is pushed back. -/
def ofPushBack : List β → ReadBuffer β
  | [] => {}
  | x :: xs => ⟨[x :: xs], (x :: xs).length, by simp⟩

/-- The end of `AdbStreamTransport.read`: the data is joined and cut, and the
rest is pushed back. -/
def take (b : ReadBuffer β) (length : ℕ) : List β × ReadBuffer β :=
  if length = 0 then (b.contents, {})
  else (b.contents.take length, ofPushBack (b.contents.drop length))

variable (b : ReadBuffer β)

theorem size_eq_length : b.size = b.contents.length := b.size_eq

@[simp] theorem contents_empty : ({} : ReadBuffer β).contents = [] := rfl

@[simp] theorem contents_append (data : List β) : (b.append data).contents = b.contents ++ data := by
  simp [contents, append]

@[simp] theorem contents_ofPushBack (data : List β) : (ofPushBack data).contents = data := by
  cases data with
  | nil => rfl
  | cons x xs => simp [ofPushBack, contents]

/-- Nothing gets lost or reordered by a read. -/
theorem take_append_contents (length : ℕ) :
    (b.take length).1 ++ (b.take length).2.contents = b.contents := by
  unfold take
  split <;> simp

theorem take_fst {length : ℕ} (h : length ≠ 0) : (b.take length).1 = b.contents.take length := by
  rw [take, if_neg h]

theorem contents_take_snd {length : ℕ} (h : length ≠ 0) :
    (b.take length).2.contents = b.contents.drop length := by
  rw [take, if_neg h, contents_ofPushBack]

theorem ready_iff {length : ℕ} (h : length ≠ 0) : b.Ready length ↔ length ≤ b.contents.length := by
  rw [Ready, size_eq_length]
  omega

end ReadBuffer

end OpenHtf.Adb
