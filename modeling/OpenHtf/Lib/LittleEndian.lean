import Mathlib.Data.List.Basic
import Mathlib.Tactic.Ring

/-!
# Little-endian words

Numbers as words of a fixed count of bytes, least significant first, and
sequences of such words.  Packing is partial in the numbers, which must fit, and
unpacking in the bytes, of which there must be as many as the words take;
`unpackWords_eq_some_iff` says that the two are inverse to each other.
-/

set_option autoImplicit false

namespace LittleEndian

/-! ## One word -/

/-- The lowest `width` bytes of a number. -/
def encode : ℕ → ℕ → List UInt8
  | 0, _ => []
  | width + 1, n => .ofNat n :: encode width (n / 256)

def decode : List UInt8 → ℕ
  | [] => 0
  | b :: bytes => b.toNat + 256 * decode bytes

@[simp] theorem encode_length (width n : ℕ) : (encode width n).length = width := by
  induction width generalizing n with
  | zero => rfl
  | succ width ih => simp [encode, ih]

theorem decode_lt (bytes : List UInt8) : decode bytes < 256 ^ bytes.length := by
  induction bytes with
  | nil => simp [decode]
  | cons b bytes ih =>
      have hb : b.toNat < 256 := b.toNat_lt
      rw [decode, List.length_cons, pow_succ]
      omega

@[simp] theorem encode_decode (bytes : List UInt8) : encode bytes.length (decode bytes) = bytes := by
  induction bytes with
  | nil => rfl
  | cons b bytes ih =>
      have hb : b.toNat < 256 := b.toNat_lt
      have hdiv : (b.toNat + 256 * decode bytes) / 256 = decode bytes := by omega
      have hmod : UInt8.ofNat (b.toNat + 256 * decode bytes) = b := by
        apply UInt8.toNat_inj.mp
        rw [UInt8.toNat_ofNat']
        omega
      rw [decode, List.length_cons, encode, hdiv, hmod, ih]

theorem decode_encode {width n : ℕ} (hn : n < 256 ^ width) : decode (encode width n) = n := by
  induction width generalizing n with
  | zero =>
      have hzero : n = 0 := by simpa using hn
      rw [hzero, encode, decode]
  | succ width ih =>
      have hdiv : n / 256 < 256 ^ width := by
        rw [pow_succ] at hn
        omega
      rw [encode, decode, ih hdiv, UInt8.toNat_ofNat']
      omega

/-! ## Sequences of words -/

/-- The words of the numbers, if each number fits into one. -/
def packWords (width : ℕ) (ns : List ℕ) : Option (List UInt8) :=
  if ∀ n ∈ ns, n < 256 ^ width then some (ns.flatMap (encode width)) else none

/-- The first `count` words of the bytes. -/
def words (width : ℕ) : ℕ → List UInt8 → List ℕ
  | 0, _ => []
  | count + 1, bytes => decode (bytes.take width) :: words width count (bytes.drop width)

/-- The words of the bytes, if these are exactly `count` words. -/
def unpackWords (width count : ℕ) (bytes : List UInt8) : Option (List ℕ) :=
  if bytes.length = width * count then some (words width count bytes) else none

variable {width count : ℕ} {ns : List ℕ} {bytes : List UInt8}

theorem packWords_eq_some_iff :
    packWords width ns = some bytes ↔
      (∀ n ∈ ns, n < 256 ^ width) ∧ ns.flatMap (encode width) = bytes := by
  unfold packWords
  split <;> simp_all

theorem packWords_isSome_iff : (packWords width ns).isSome ↔ ∀ n ∈ ns, n < 256 ^ width := by
  unfold packWords
  split <;> simp_all

theorem length_flatMap_encode (width : ℕ) (ns : List ℕ) :
    (ns.flatMap (encode width)).length = width * ns.length := by
  induction ns with
  | nil => simp
  | cons n ns ih =>
      rw [List.flatMap_cons, List.length_append, ih, encode_length, List.length_cons]
      ring

theorem words_flatMap_encode (hns : ∀ n ∈ ns, n < 256 ^ width) :
    words width ns.length (ns.flatMap (encode width)) = ns := by
  induction ns with
  | nil => rfl
  | cons n ns ih =>
      have hlen : (encode width n).length = width := encode_length width n
      rw [List.length_cons, List.flatMap_cons, words, List.take_left' hlen, List.drop_left' hlen,
        decode_encode (hns n List.mem_cons_self), ih fun m hm ↦ hns m (List.mem_cons_of_mem n hm)]

theorem length_words (width count : ℕ) (bytes : List UInt8) :
    (words width count bytes).length = count := by
  induction count generalizing bytes with
  | zero => rfl
  | succ count ih => simp [words, ih]

theorem flatMap_encode_words (hlen : bytes.length = width * count) :
    (words width count bytes).flatMap (encode width) = bytes := by
  induction count generalizing bytes with
  | zero =>
      have hnil : bytes = [] := by simpa using hlen
      rw [hnil, words, List.flatMap_nil]
  | succ count ih =>
      rw [Nat.mul_succ] at hlen
      have htake : (bytes.take width).length = width := by
        rw [List.length_take]
        omega
      have hdrop : (bytes.drop width).length = width * count := by
        rw [List.length_drop]
        omega
      have hword : encode width (decode (bytes.take width)) = bytes.take width := by
        simpa only [htake] using encode_decode (bytes.take width)
      rw [words, List.flatMap_cons, ih hdrop, hword, List.take_append_drop]

theorem words_lt (hlen : bytes.length = width * count) :
    ∀ n ∈ words width count bytes, n < 256 ^ width := by
  induction count generalizing bytes with
  | zero => simp [words]
  | succ count ih =>
      rw [Nat.mul_succ] at hlen
      have htake : (bytes.take width).length = width := by
        rw [List.length_take]
        omega
      have hdrop : (bytes.drop width).length = width * count := by
        rw [List.length_drop]
        omega
      intro n hn
      rcases List.mem_cons.mp hn with rfl | hn
      · simpa only [htake] using decode_lt (bytes.take width)
      · exact ih hdrop n hn

/-- Unpacking inverts packing, and packing inverts unpacking. -/
theorem unpackWords_eq_some_iff :
    unpackWords width count bytes = some ns ↔ ns.length = count ∧ packWords width ns = some bytes := by
  rw [packWords_eq_some_iff]
  constructor
  · intro h
    unfold unpackWords at h
    split at h
    · rename_i hlen
      obtain rfl := Option.some.inj h
      exact ⟨length_words width count bytes, words_lt hlen, flatMap_encode_words hlen⟩
    · cases h
  · rintro ⟨rfl, hlt, rfl⟩
    rw [unpackWords, if_pos (length_flatMap_encode width ns), words_flatMap_encode hlt]

theorem length_of_unpackWords (h : unpackWords width count bytes = some ns) :
    bytes.length = width * count := by
  unfold unpackWords at h
  split at h
  · assumption
  · cases h

end LittleEndian
