import Mathlib

/-!
# Numbers as bytes

Numbers stand in a buffer with their low bytes first.

* `toNat_ofNat` — `k` bytes hold a number modulo `256 ^ k`.
* `read_append` — a field is read back at the offset at which it was written.
* `words_append` — numbers of `k` bytes are read back from the front of a buffer.
-/

namespace Swinx

namespace Bytes

/-- The low `k` bytes of `n`. -/
def ofNat : ℕ → ℕ → List UInt8
  | 0, _ => []
  | k + 1, n => UInt8.ofNat n :: ofNat k (n / 256)

/-- The number that the bytes hold. -/
def toNat : List UInt8 → ℕ
  | [] => 0
  | b :: bs => b.toNat + 256 * toNat bs

/-- The number in the `k` bytes at the offset `off`. -/
def read (bs : List UInt8) (off k : ℕ) : ℕ := toNat ((bs.drop off).take k)

@[simp] theorem length_ofNat (k n : ℕ) : (ofNat k n).length = k := by
  induction k generalizing n with
  | zero => rfl
  | succ k ih => rw [ofNat, List.length_cons, ih]

theorem toNat_ofNat (k n : ℕ) : toNat (ofNat k n) = n % 256 ^ k := by
  induction k generalizing n with
  | zero => simp [ofNat, toNat, Nat.mod_one]
  | succ k ih =>
    have hbyte : (UInt8.ofNat n).toNat = n % 256 := UInt8.toNat_ofNat'
    rw [ofNat, toNat, ih, hbyte, Nat.pow_succ, Nat.mul_comm (256 ^ k), Nat.mod_mul]

theorem toNat_ofNat_of_lt {k n : ℕ} (h : n < 256 ^ k) : toNat (ofNat k n) = n := by
  rw [toNat_ofNat, Nat.mod_eq_of_lt h]

/-- A field between what stands before it and what stands behind it. -/
theorem read_append (pre field post : List UInt8) {off k : ℕ} (hoff : pre.length = off)
    (hk : field.length = k) : read (pre ++ (field ++ post)) off k = toNat field := by
  rw [read, List.drop_left' hoff, List.take_left' hk]

/-- Numbers of `k` bytes, one after the other. -/
def ofWords (k : ℕ) (us : List ℕ) : List UInt8 := us.flatMap (ofNat k)

/-- The first `n` numbers of `k` bytes. -/
def takeWords (k : ℕ) : ℕ → List UInt8 → List ℕ
  | 0, _ => []
  | n + 1, bs => toNat (bs.take k) :: takeWords k n (bs.drop k)

/-- The numbers of `k` bytes that the buffer holds in whole. -/
def words (k : ℕ) (bs : List UInt8) : List ℕ := takeWords k (bs.length / k) bs

@[simp] theorem length_ofWords (k : ℕ) (us : List ℕ) : (ofWords k us).length = us.length * k := by
  induction us with
  | nil => simp [ofWords]
  | cons u us ih =>
    have hcons : ofWords k (u :: us) = ofNat k u ++ ofWords k us := List.flatMap_cons
    rw [hcons, List.length_append, length_ofNat, ih, List.length_cons, Nat.succ_mul, Nat.add_comm]

theorem takeWords_append {k : ℕ} {us : List ℕ} (h : ∀ u ∈ us, u < 256 ^ k) (n : ℕ)
    (rest : List UInt8) :
    takeWords k (us.length + n) (ofWords k us ++ rest) = us ++ takeWords k n rest := by
  induction us with
  | nil => simp [ofWords]
  | cons u us ih =>
    have hcons : ofWords k (u :: us) = ofNat k u ++ ofWords k us := List.flatMap_cons
    have hu := toNat_ofNat_of_lt (h u List.mem_cons_self)
    have := ih fun v hv => h v (List.mem_cons_of_mem u hv)
    rw [List.length_cons, Nat.add_right_comm, hcons, List.append_assoc, takeWords,
      List.take_left' (length_ofNat k u), List.drop_left' (length_ofNat k u), hu, this,
      List.cons_append]

theorem words_append {k : ℕ} (hk : 0 < k) {us : List ℕ} (h : ∀ u ∈ us, u < 256 ^ k)
    (rest : List UInt8) : words k (ofWords k us ++ rest) = us ++ words k rest := by
  have hlen : (ofWords k us ++ rest).length / k = us.length + rest.length / k := by
    rw [List.length_append, length_ofWords, Nat.add_comm, Nat.add_mul_div_right _ _ hk,
      Nat.add_comm]
  rw [words, hlen, takeWords_append h, words]

theorem words_ofWords {k : ℕ} (hk : 0 < k) {us : List ℕ} (h : ∀ u ∈ us, u < 256 ^ k) :
    words k (ofWords k us) = us := by
  have hnil : words k [] = [] := by
    rw [words, List.length_nil, Nat.zero_div, takeWords]
  have hwords := words_append hk h []
  rwa [List.append_nil, hnil, List.append_nil] at hwords

end Bytes

end Swinx
