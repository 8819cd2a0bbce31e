import Mathlib.Data.Nat.Bitwise
import Mathlib.Data.List.Sort
import Mathlib.Tactic.Linarith

/-!
# A table searched from its values

A table of values of 16 bits is searched for a value through the sorted list of its packed entries:
the value in the high half of a word, the place in the low half.  The place `0` is found like the
others, so a result is an `Option`.

* `lowerBound_eq_some_iff` — in a sorted list it is the least such element.
* `lowerBound_packed_iff` — the bound of a value finds the first place of the value.
-/

namespace Swinx

namespace ReverseIndex

/-! ### Words of two halves -/

/-- The word with the halves `hi` and `lo`. -/
def pack (hi lo : ℕ) : ℕ := hi <<< 16 ||| lo

theorem pack_eq (hi : ℕ) {lo : ℕ} (h : lo < 65536) : pack hi lo = hi * 65536 + lo := by
  rw [pack, ← Nat.shiftLeft_add_eq_or_of_lt (by omega), Nat.shiftLeft_eq]

theorem pack_shiftRight (hi : ℕ) {lo : ℕ} (h : lo < 65536) : pack hi lo >>> 16 = hi := by
  rw [pack_eq hi h, Nat.shiftRight_eq_div_pow]
  omega

theorem pack_and (hi : ℕ) {lo : ℕ} (h : lo < 65536) : pack hi lo &&& 65535 = lo := by
  have hmask : pack hi lo &&& 65535 = pack hi lo % 65536 := Nat.and_two_pow_sub_one_eq_mod _ 16
  rw [hmask, pack_eq hi h]
  omega

/-- Words are in the order of their high halves, and of their low halves where these are equal. -/
theorem pack_le_pack {a b i j : ℕ} (hi : i < 65536) (hj : j < 65536) (h : a * 65536 ≤ pack b j)
    (hij : a = b → i ≤ j) : pack a i ≤ pack b j := by
  rw [pack_eq b hj] at h ⊢
  rw [pack_eq a hi]
  rcases Nat.lt_trichotomy a b with hlt | rfl | hlt
  · linarith
  · exact Nat.add_le_add_left (hij rfl) _
  · linarith

/-! ### The least element above a bound -/

/-- The first element that is not below `v`. -/
def lowerBound (v : ℕ) (xs : List ℕ) : Option ℕ := xs.find? fun x => v ≤ x

theorem lowerBound_eq_some_iff {v x : ℕ} {xs : List ℕ} (hs : xs.Pairwise (· ≤ ·)) :
    lowerBound v xs = some x ↔ x ∈ xs ∧ v ≤ x ∧ ∀ y ∈ xs, v ≤ y → x ≤ y := by
  unfold lowerBound
  induction xs with
  | nil => simp
  | cons a xs ih =>
    obtain ⟨ha, hs⟩ := List.pairwise_cons.1 hs
    rw [List.find?_cons]
    by_cases hv : v ≤ a
    · simp only [hv, decide_true]
      constructor
      · intro h
        obtain rfl : a = x := Option.some.inj h
        exact ⟨List.mem_cons_self, hv,
          List.forall_mem_cons.2 ⟨fun _ => le_rfl, fun y hy _ => ha y hy⟩⟩
      · rintro ⟨hx, -, hmin⟩
        have hxa := hmin a List.mem_cons_self hv
        have hax : a ≤ x := (List.mem_cons.1 hx).elim ge_of_eq (ha x)
        rw [le_antisymm hax hxa]
    · simp only [hv, decide_false, ih hs, List.forall_mem_cons]
      constructor
      · rintro ⟨hx, hvx, hmin⟩
        exact ⟨List.mem_cons_of_mem a hx, hvx, fun h => h.elim, hmin⟩
      · rintro ⟨hx, hvx, -, hmin⟩
        exact ⟨(List.mem_cons.1 hx).resolve_left fun h => hv (h ▸ hvx), hvx, hmin⟩

/-! ### The packed entries -/

variable {n : ℕ} {entry : ℕ → ℕ}

/-- The entries that are not zero, packed with their places and sorted. -/
def packed (n : ℕ) (entry : ℕ → ℕ) : List ℕ :=
  (((List.range n).filter fun i => entry i ≠ 0).map fun i => pack (entry i) i).mergeSort

theorem packed_sorted (n : ℕ) (entry : ℕ → ℕ) : (packed n entry).Pairwise (· ≤ ·) := by
  have htrans : ∀ a b c : ℕ, decide (a ≤ b) → decide (b ≤ c) → decide (a ≤ c) := by
    simp only [decide_eq_true_eq]
    exact fun _ _ _ => le_trans
  have htotal : ∀ a b : ℕ, decide (a ≤ b) || decide (b ≤ a) := by
    simp only [Bool.or_eq_true, decide_eq_true_eq]
    exact Nat.le_total
  exact (List.pairwise_mergeSort htrans htotal _).imp fun hab => of_decide_eq_true hab

theorem mem_packed {x : ℕ} :
    x ∈ packed n entry ↔ ∃ i < n, entry i ≠ 0 ∧ pack (entry i) i = x := by
  simp [packed, and_assoc]

/-- **The bound of a value finds its first place.** -/
theorem lowerBound_packed_iff {c x : ℕ} (hn : n ≤ 65536) (hc : c ≠ 0) :
    (lowerBound (c <<< 16) (packed n entry) = some x ∧ x >>> 16 = c) ↔
      ∃ i < n, entry i = c ∧ (∀ j < i, entry j ≠ c) ∧ x = pack c i := by
  have hshift : c <<< 16 = c * 65536 := Nat.shiftLeft_eq c 16
  rw [lowerBound_eq_some_iff (packed_sorted n entry), hshift]
  constructor
  · rintro ⟨⟨hx, -, hmin⟩, hxc⟩
    obtain ⟨i, hi, -, rfl⟩ := mem_packed.1 hx
    have hi' : i < 65536 := by omega
    rw [pack_shiftRight _ hi'] at hxc
    obtain rfl := hxc
    refine ⟨i, hi, rfl, fun j hj hji => ?_, rfl⟩
    -- An earlier place of the value would be packed into a smaller word.
    have hle := hmin (pack (entry j) j) (mem_packed.2 ⟨j, by omega, hji ▸ hc, rfl⟩)
    rw [pack_eq _ hi', pack_eq _ (by omega), hji] at hle
    omega
  · rintro ⟨i, hi, rfl, hfirst, rfl⟩
    have hi' : i < 65536 := by omega
    refine ⟨⟨mem_packed.2 ⟨i, hi, hc, rfl⟩, ?_, fun y hy hle => ?_⟩, pack_shiftRight _ hi'⟩
    · rw [pack_eq _ hi']
      omega
    · obtain ⟨j, hj, -, rfl⟩ := mem_packed.1 hy
      have hj' : j < 65536 := by omega
      exact pack_le_pack hi' hj' hle fun heq => not_lt.1 fun hji => hfirst j hji heq.symm

end ReverseIndex

end Swinx
