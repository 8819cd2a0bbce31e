import Mathlib
import Swinx.Data.MixedRadix

/-!
# The cells of a safe array

A `SAFEARRAY` keeps the bounds of its dimensions last dimension first.  `SafeArrayPtrOfIndex` checks
each index against its bound and computes the offset of the element in 32 bits, the first dimension
fastest; the block for the data is as large as `SAFEARRAY_GetCellCount` and the size of an element
say, in 32 bits too.

* `ptrOfIndex_eq` — the offset of an element.
* `ptrOfIndex_in_block_iff` — all offsets are in the block exactly if its size fits into 32 bits.
-/

namespace Swinx

namespace SafeArray

open MixedRadix

/-- An integer as a `ULONG`. -/
def toUlong (n : ℤ) : ℕ := (n % 4294967296).toNat

/-- An integer as a `LONG`. -/
def toLong (n : ℤ) : ℤ := Int.bmod n 4294967296

/-- A `SAFEARRAYBOUND`. -/
structure Bound where
  lLbound : ℤ
  cElements : ℕ
  deriving DecidableEq, Repr

/-- The loop of `SAFEARRAY_GetCellCount`. -/
def countCells : List Bound → ℕ → ℕ
  | [], ulNumCells => ulNumCells
  | b :: bs, ulNumCells =>
    if b.cElements = 0 then 0 else countCells bs (toUlong (ulNumCells * b.cElements))

/-- `SAFEARRAY_GetCellCount` -/
def getCellCount (rgsabound : List Bound) : ℕ := countCells rgsabound 1

/-- The index is out of the bound, as the comparisons see it. -/
def Bound.bad (b : Bound) (i : ℤ) : Bool :=
  i < b.lLbound || toLong (b.lLbound + toLong b.cElements) ≤ i

/-- The loop of `SafeArrayPtrOfIndex`: `prev` is the bound before `bs`. -/
def ptrLoop (prev : Bound) : List Bound → List ℤ → ℕ → ℕ → Option ℕ
  | b :: bs, i :: is, dimensionSize, cell =>
    let dimensionSize := toUlong (dimensionSize * prev.cElements)
    if b.cElements = 0 || b.bad i then none
    else ptrLoop b bs is dimensionSize (toUlong (cell + toUlong (i - b.lLbound) * dimensionSize))
  | [], _, _, cell => some cell
  -- There are as many indices as bounds.
  | _ :: _, [], _, _ => none

/-- `SafeArrayPtrOfIndex`: the offset of an element, or a bad index. -/
def ptrOfIndex (rgsabound : List Bound) (cbElements : ℕ) (rgIndices : List ℤ) : Option ℕ :=
  match rgsabound.reverse, rgIndices with
  | b :: bs, c1 :: is =>
    if b.bad c1 then none
    else (ptrLoop b bs is 1 0).map fun (cell : ℕ) =>
      toUlong (toUlong (cell + (c1 - b.lLbound)) * cbElements)
  | _, _ => none

/-- The size of the data that is allocated. -/
def dataSize (rgsabound : List Bound) (cbElements : ℕ) : ℕ :=
  toUlong (getCellCount rgsabound * cbElements)

/-! ### Indices and positions -/

/-- The sides of the grid. -/
def sides (bs : List Bound) : List ℕ := bs.map Bound.cElements

/-- An index in each dimension, within its bound. -/
def InBounds (bs : List Bound) (is : List ℤ) : Prop :=
  List.Forall₂ (fun (b : Bound) (i : ℤ) => b.lLbound ≤ i ∧ i < b.lLbound + b.cElements) bs is

/-- Where the indices stand in the grid. -/
def positions (bs : List Bound) (is : List ℤ) : List ℕ :=
  List.zipWith (fun b i => (i - b.lLbound).toNat) bs is

/-- The bounds of a dimension are those of a `LONG`. -/
structure Bound.Ok (b : Bound) : Prop where
  lower : -2147483648 ≤ b.lLbound
  upper : b.lLbound + b.cElements < 2147483648
  count : b.cElements < 2147483648

variable {b : Bound} {bs : List Bound} {is js : List ℤ} {i : ℤ} {cb : ℕ}

theorem inBounds_cons : InBounds (b :: bs) (i :: is) ↔
    (b.lLbound ≤ i ∧ i < b.lLbound + b.cElements) ∧ InBounds bs is :=
  List.forall₂_cons

theorem InBounds.length_eq (h : InBounds bs is) : is.length = bs.length :=
  (List.Forall₂.length_eq h).symm

/-- Whether indices are in bounds can be decided. -/
instance decidableInBounds : ∀ bs is, Decidable (InBounds bs is)
  | [], [] => .isTrue .nil
  | [], _ :: _ => .isFalse fun h => by cases h
  | _ :: _, [] => .isFalse fun h => by cases h
  | b :: bs, i :: is =>
    have := decidableInBounds bs is
    decidable_of_iff ((b.lLbound ≤ i ∧ i < b.lLbound + b.cElements) ∧ InBounds bs is)
      inBounds_cons.symm

theorem InBounds.within (h : InBounds bs is) : Within (sides bs) (positions bs is) := by
  induction h with
  | nil => exact .nil
  | cons hi _ ih => exact .cons (by dsimp only; omega) ih

theorem value_positions_cons : value (sides (b :: bs)) (positions (b :: bs) (i :: is)) =
    (i - b.lLbound).toNat + b.cElements * value (sides bs) (positions bs is) := rfl

theorem exists_index {ds : List ℕ} (h : Within (sides bs) ds) :
    ∃ is, InBounds bs is ∧ positions bs is = ds := by
  induction bs generalizing ds with
  | nil => exact ⟨[], .nil, (within_nil.1 h).symm⟩
  | cons b bs ih =>
    cases ds with
    | nil => exact absurd h not_within_cons_nil
    | cons d ds =>
      obtain ⟨hd, hds⟩ := within_cons.1 h
      obtain ⟨is, his, hpos⟩ := ih hds
      refine ⟨(b.lLbound + d) :: is, inBounds_cons.2 ⟨by omega, his⟩, ?_⟩
      rw [positions, List.zipWith_cons_cons, add_sub_cancel_left, Int.toNat_natCast]
      exact congrArg _ hpos

/-! ### The offset of an element -/

theorem toUlong_natCast (n : ℕ) : toUlong n = n % 4294967296 := by
  unfold toUlong
  omega

theorem Bound.Ok.toLong_upper (h : b.Ok) :
    toLong (b.lLbound + toLong b.cElements) = b.lLbound + b.cElements := by
  obtain ⟨hl, hu, hc⟩ := h
  have hcount : toLong b.cElements = b.cElements := Int.bmod_eq_of_le (by omega) (by omega)
  rw [hcount]
  exact Int.bmod_eq_of_le (by omega) (by omega)

theorem Bound.Ok.bad_iff (h : b.Ok) :
    b.bad i = false ↔ b.lLbound ≤ i ∧ i < b.lLbound + b.cElements := by
  rw [Bound.bad, h.toLong_upper]
  simp

/-- The loop adds up the number of the cell, from the second dimension on. -/
theorem ptrLoop_eq (prev : Bound) (hok : ∀ b ∈ bs, b.Ok) (hlen : is.length = bs.length)
    (size cell : ℕ) (hcell : cell < 4294967296) :
    ptrLoop prev bs is size cell = if InBounds bs is then
      some ((cell + size * prev.cElements * value (sides bs) (positions bs is)) % 4294967296)
    else none := by
  induction bs generalizing is prev size cell with
  | nil =>
    obtain rfl := List.length_eq_zero_iff.1 hlen
    rw [if_pos .nil]
    simp [ptrLoop, sides, Nat.mod_eq_of_lt hcell]
  | cons b bs ih =>
    cases is with
    | nil => cases hlen
    | cons i is =>
      have hb := hok b List.mem_cons_self
      by_cases hi : b.lLbound ≤ i ∧ i < b.lLbound + b.cElements
      · have hgood : (b.cElements = 0 || b.bad i) = false := by
          rw [hb.bad_iff.2 hi, Bool.or_false, decide_eq_false_iff_not]
          omega
        have hpos : toUlong (i - b.lLbound) = (i - b.lLbound).toNat := by
          have := hb.count
          unfold toUlong
          rw [Int.emod_eq_of_lt (by omega) (by omega)]
        have hsize : toUlong (size * prev.cElements) = size * prev.cElements % 4294967296 := by
          exact_mod_cast toUlong_natCast (size * prev.cElements)
        have hcell' : toUlong (cell + toUlong (i - b.lLbound) *
            toUlong (size * prev.cElements)) =
              (cell + (i - b.lLbound).toNat * (size * prev.cElements % 4294967296)) %
                4294967296 := by
          rw [hpos, hsize]
          exact_mod_cast toUlong_natCast _
        simp only [ptrLoop, hgood, Bool.false_eq_true, if_false]
        rw [ih _ (fun b' hb' => hok b' (List.mem_cons_of_mem b hb')) (Nat.succ.inj hlen) _ _
          (hcell' ▸ Nat.mod_lt _ (by decide)), hcell', hsize]
        refine if_congr (by rw [inBounds_cons, and_iff_right hi]) (congrArg some ?_) rfl
        -- The sums agree modulo 2 ^ 32, and only this reaches the result.
        have hmod : size * prev.cElements % 4294967296 ≡ size * prev.cElements [MOD 4294967296] :=
          Nat.mod_modEq _ _
        have hsum := ((Nat.mod_modEq _ _).trans
          ((hmod.mul_left (i - b.lLbound).toNat).add_left cell)).add
            ((hmod.mul_right b.cElements).mul_right (value (sides bs) (positions bs is)))
        refine hsum.trans (congrArg (· % 4294967296) ?_)
        rw [value_positions_cons]
        ring
      · have hbad : (b.cElements = 0 || b.bad i) = true := by
          rw [Bool.or_eq_true]
          refine .inr ?_
          by_contra h
          exact hi (hb.bad_iff.1 (Bool.not_eq_true _ ▸ h))
        simp only [ptrLoop, hbad, if_true]
        rw [if_neg fun h => hi (inBounds_cons.1 h).1]

/-- **The offset of an element.** -/
theorem ptrOfIndex_eq (cb : ℕ) (hne : bs ≠ []) (hok : ∀ b ∈ bs, b.Ok)
    (hlen : is.length = bs.length) :
    ptrOfIndex bs.reverse cb is = if InBounds bs is then
      some (value (sides bs) (positions bs is) * cb % 4294967296) else none := by
  cases bs with
  | nil => exact absurd rfl hne
  | cons b bs =>
    cases is with
    | nil => cases hlen
    | cons i is =>
      have hb := hok b List.mem_cons_self
      by_cases hi : b.lLbound ≤ i ∧ i < b.lLbound + b.cElements
      · have hloop := ptrLoop_eq b (fun b' hb' => hok b' (List.mem_cons_of_mem b hb'))
          (Nat.succ.inj hlen) 1 0 (by decide)
        simp only [ptrOfIndex, List.reverse_reverse, hb.bad_iff.2 hi, Bool.false_eq_true, if_false,
          hloop, inBounds_cons, and_iff_right hi]
        split_ifs with his
        · rw [Option.map_some, Option.some.injEq, zero_add, one_mul]
          have hcast (n : ℕ) : (n : ℤ) + (i - b.lLbound) = (n + (i - b.lLbound).toNat : ℕ) := by
            omega
          rw [hcast, toUlong_natCast, ← Nat.cast_mul, toUlong_natCast]
          have hmod := ((Nat.mod_modEq (b.cElements * value (sides bs) (positions bs is))
            4294967296).add_right (i - b.lLbound).toNat)
          refine (((Nat.mod_modEq _ _).trans hmod).mul_right cb).trans
            (congrArg (· % 4294967296) ?_)
          rw [value_positions_cons]
          ring
        · rfl
      · have hbad : b.bad i = true := by
          by_contra h
          exact hi (hb.bad_iff.1 (Bool.not_eq_true _ ▸ h))
        simp only [ptrOfIndex, List.reverse_reverse, hbad, if_true]
        rw [if_neg fun h => hi (inBounds_cons.1 h).1]

theorem countCells_eq {n : ℕ} (hn : n < 4294967296) :
    countCells bs n = n * (sides bs).prod % 4294967296 := by
  induction bs generalizing n with
  | nil => simp [countCells, sides, Nat.mod_eq_of_lt hn]
  | cons b bs ih =>
    rw [sides, List.map_cons, List.prod_cons]
    by_cases hzero : b.cElements = 0
    · simp [countCells, hzero]
    · have hmul : toUlong (n * b.cElements) = n * b.cElements % 4294967296 := by
        exact_mod_cast toUlong_natCast (n * b.cElements)
      rw [countCells, if_neg hzero, hmul, ih (Nat.mod_lt _ (by decide)), Nat.mod_mul_mod, mul_assoc,
        sides]

theorem getCellCount_eq : getCellCount bs = (sides bs).prod % 4294967296 := by
  rw [getCellCount, countCells_eq (by decide), one_mul]

theorem prod_sides_reverse : (sides bs.reverse).prod = (sides bs).prod := by
  rw [sides, List.map_reverse, List.prod_reverse, sides]

theorem sides_snoc : sides (bs ++ [b]) = sides bs ++ [b.cElements] := List.map_append ..

theorem prod_sides_snoc : (sides (bs ++ [b])).prod = (sides bs).prod * b.cElements := by
  rw [sides_snoc, List.prod_append, List.prod_singleton]

theorem dataSize_eq : dataSize bs cb = (sides bs).prod * cb % 4294967296 := by
  have hcast : toUlong (getCellCount bs * cb) = getCellCount bs * cb % 4294967296 := by
    exact_mod_cast toUlong_natCast (getCellCount bs * cb)
  rw [dataSize, hcast, getCellCount_eq, Nat.mod_mul_mod]

/-- **Every element is in the block if and only if the size of the block fits into 32 bits.** -/
theorem ptrOfIndex_in_block_iff (hne : bs ≠ []) (hok : ∀ b ∈ bs, b.Ok) (hcb : 0 < cb)
    (hcb' : cb < 4294967296) :
    (∀ is off, is.length = bs.length → ptrOfIndex bs.reverse cb is = some off →
      off + cb ≤ dataSize bs.reverse cb) ↔ (sides bs).prod * cb < 4294967296 := by
  rw [dataSize_eq, prod_sides_reverse]
  constructor
  · intro hall
    by_contra hbig
    -- The last element that begins in the first 2 ^ 32 bytes does not end in the block.
    obtain ⟨ds, hds, hval⟩ := @exists_value (sides bs) (4294967295 / cb) (by
      have := Nat.div_mul_le_self 4294967295 cb
      exact Nat.lt_of_mul_lt_mul_right (a := cb) (by omega))
    obtain ⟨is, his, hpos⟩ := exists_index hds
    have hoff := ptrOfIndex_eq cb hne hok his.length_eq
    rw [if_pos his, hpos, hval] at hoff
    have hle := hall is _ his.length_eq hoff
    have hdiv := Nat.div_add_mod 4294967295 cb
    have hmod := Nat.mod_lt 4294967295 hcb
    have hlt := Nat.mod_lt ((sides bs).prod * cb) (by decide : 0 < 4294967296)
    rw [mul_comm cb] at hdiv
    rw [Nat.mod_eq_of_lt (by omega)] at hle
    omega
  · intro hfits is off hlen hoff
    rw [ptrOfIndex_eq cb hne hok hlen] at hoff
    split_ifs at hoff with his
    have hval := value_lt his.within
    have hmul : value (sides bs) (positions bs is) * cb + cb ≤ (sides bs).prod * cb := by
      calc value (sides bs) (positions bs is) * cb + cb
          = (value (sides bs) (positions bs is) + 1) * cb := by ring
        _ ≤ (sides bs).prod * cb := Nat.mul_le_mul_right cb hval
    rw [← Option.some.inj hoff, Nat.mod_eq_of_lt (by omega), Nat.mod_eq_of_lt hfits]
    exact hmul

theorem ptrOfIndex_in_block_iff_sample :
    ((∀ is off, is.length = 2 → ptrOfIndex [⟨5, 2⟩, ⟨-1, 3⟩] 4 is = some off →
      off + 4 ≤ dataSize [⟨5, 2⟩, ⟨-1, 3⟩] 4) ↔ 3 * (2 * 1) * 4 < 4294967296) :=
  @ptrOfIndex_in_block_iff [⟨-1, 3⟩, ⟨5, 2⟩] 4 (by decide)
    (by simp only [List.forall_mem_cons]; exact ⟨⟨by decide, by decide, by decide⟩,
      ⟨by decide, by decide, by decide⟩, by simp⟩) (by decide) (by decide)

end SafeArray

end Swinx
