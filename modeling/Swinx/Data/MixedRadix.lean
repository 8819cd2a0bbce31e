import Mathlib

/-!
# Positions in a grid

The cells of a grid with the sides `bs` are numbered with the first side fastest: the cell at the
position `ds` has the number `d₁ + b₁ * (d₂ + b₂ * …)`.

* `value_lt`, `value_inj`, `exists_value` — the numbers are exactly those below the product of the
  sides, and each is that of one position.
* `value_snoc` — how the cells lie along the last side.
-/

namespace Swinx

namespace MixedRadix

/-- A position in the grid. -/
def Within (bs ds : List ℕ) : Prop := List.Forall₂ (fun b d => d < b) bs ds

/-- The number of the cell at a position. -/
def value : List ℕ → List ℕ → ℕ
  | b :: bs, d :: ds => d + b * value bs ds
  | _, _ => 0

variable {bs ds es : List ℕ} {b d n : ℕ}

@[simp] theorem value_nil : value [] ds = 0 := by
  cases ds <;> rfl

@[simp] theorem value_cons : value (b :: bs) (d :: ds) = d + b * value bs ds := rfl

@[simp] theorem within_nil : Within [] ds ↔ ds = [] := List.forall₂_nil_left_iff

@[simp] theorem within_cons : Within (b :: bs) (d :: ds) ↔ d < b ∧ Within bs ds :=
  List.forall₂_cons

theorem Within.length_eq (h : Within bs ds) : ds.length = bs.length :=
  (List.Forall₂.length_eq h).symm

theorem not_within_cons_nil : ¬ Within (b :: bs) [] := by
  intro h
  cases h

/-- Whether a position is in the grid can be decided. -/
instance decidableWithin : ∀ bs ds, Decidable (Within bs ds)
  | [], _ => decidable_of_iff _ within_nil.symm
  | _ :: _, [] => .isFalse not_within_cons_nil
  | b :: bs, d :: ds =>
    have := decidableWithin bs ds
    decidable_of_iff (d < b ∧ Within bs ds) within_cons.symm

theorem value_lt (h : Within bs ds) : value bs ds < bs.prod := by
  induction h with
  | nil => simp
  | @cons b d bs ds hd _ ih =>
    rw [value_cons, List.prod_cons]
    calc d + b * value bs ds < b + b * value bs ds := by omega
      _ = b * (value bs ds + 1) := by ring
      _ ≤ b * bs.prod := Nat.mul_le_mul_left b ih

theorem value_inj (hd : Within bs ds) (he : Within bs es) (h : value bs ds = value bs es) :
    ds = es := by
  induction hd generalizing es with
  | nil => exact (within_nil.1 he).symm
  | @cons b d bs ds hdb _ ih =>
    cases es with
    | nil => exact absurd he not_within_cons_nil
    | cons e es =>
      obtain ⟨heb, he⟩ := within_cons.1 he
      rw [value_cons, value_cons] at h
      have hhead : d = e := by
        have hmod := congrArg (· % b) h
        simpa [Nat.add_mul_mod_self_left, Nat.mod_eq_of_lt hdb, Nat.mod_eq_of_lt heb] using hmod
      have htail : value bs ds = value bs es := by
        have hmul : b * value bs ds = b * value bs es := by omega
        exact Nat.eq_of_mul_eq_mul_left (by omega) hmul
      rw [hhead, ih he htail]

theorem exists_value (h : n < bs.prod) : ∃ ds, Within bs ds ∧ value bs ds = n := by
  induction bs generalizing n with
  | nil =>
    refine ⟨[], within_nil.2 rfl, ?_⟩
    rw [List.prod_nil] at h
    exact (Nat.lt_one_iff.1 h).symm
  | cons b bs ih =>
    rw [List.prod_cons] at h
    have hb : 0 < b := by
      by_contra hzero
      rw [Nat.le_zero.1 (not_lt.1 hzero), zero_mul] at h
      exact Nat.not_lt_zero n h
    obtain ⟨ds, hds, hval⟩ := ih (Nat.div_lt_of_lt_mul h)
    refine ⟨n % b :: ds, within_cons.2 ⟨Nat.mod_lt n hb, hds⟩, ?_⟩
    rw [value_cons, hval, Nat.mod_add_div]

theorem value_snoc (hlen : ds.length = bs.length) :
    value (bs ++ [b]) (ds ++ [d]) = value bs ds + bs.prod * d := by
  induction bs generalizing ds with
  | nil =>
    rw [List.length_eq_zero_iff.1 hlen]
    simp
  | cons b' bs ih =>
    cases ds with
    | nil => cases hlen
    | cons d' ds =>
      rw [List.cons_append, List.cons_append, value_cons, value_cons,
        ih (Nat.succ.inj hlen), List.prod_cons]
      ring

theorem Within.exists_snoc (h : Within (bs ++ [b]) ds) :
    ∃ es d, ds = es ++ [d] ∧ Within bs es ∧ d < b := by
  induction bs generalizing ds with
  | nil =>
    cases ds with
    | nil => cases h
    | cons d ds =>
      obtain ⟨hd, hds⟩ := within_cons.1 h
      exact ⟨[], d, by rw [within_nil.1 hds, List.nil_append], within_nil.2 rfl, hd⟩
  | cons b' bs ih =>
    cases ds with
    | nil => cases h
    | cons d ds =>
      obtain ⟨hd, hds⟩ := within_cons.1 h
      obtain ⟨es, e, rfl, hes, he⟩ := ih hds
      exact ⟨d :: es, e, rfl, within_cons.2 ⟨hd, hes⟩, he⟩

theorem Within.snoc (h : Within bs ds) (hd : d < b) : Within (bs ++ [b]) (ds ++ [d]) := by
  induction h with
  | nil => exact within_cons.2 ⟨hd, within_nil.2 rfl⟩
  | cons hd' _ ih => exact within_cons.2 ⟨hd', ih⟩

end MixedRadix

end Swinx
