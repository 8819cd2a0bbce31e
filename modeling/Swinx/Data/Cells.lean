import Mathlib.Data.List.Pairwise
import Mathlib.Tactic.SplitIfs

/-!
# Blocks of memory with values in them

A value of `n` bytes that is stored in a block takes `n` cells; each cell knows the value it is a
part of and which part it is.  A value can be read where all its parts are still in their places, so
a store that overlaps another destroys it.

* `Stored.unique` — what is read at a place is one value.
* `Stored.of_storeFields` — the fields of a record that do not overlap can all be read.
-/

namespace Swinx

/-- A byte of the memory: cleared, or the part `i` of a value. -/
inductive Cell (V : Type*)
  | zero
  | part (v : V) (i : ℕ)

/-- A block of memory by its offsets. -/
abbrev Block (V : Type*) := ℕ → Cell V

namespace Block

variable {V : Type*}

/-- Writing a value of `n` bytes at `o`. -/
def store (m : Block V) (o n : ℕ) (v : V) : Block V :=
  fun k => if o ≤ k ∧ k < o + n then .part v (k - o) else m k

/-- A value of `n` bytes stands at `o`. -/
def Stored (m : Block V) (o n : ℕ) (v : V) : Prop := ∀ i < n, m (o + i) = .part v i

/-- The `n` bytes at `o` are cleared. -/
def Cleared (m : Block V) (o n : ℕ) : Prop := ∀ i < n, m (o + i) = .zero

/-- The blocks are the same in the `n` bytes at `o`. -/
def Agree (m m' : Block V) (o n : ℕ) : Prop := ∀ k, o ≤ k → k < o + n → m' k = m k

variable {m m' : Block V} {o n o' n' : ℕ} {v v' : V}

theorem agree_store (h : o + n ≤ o' ∨ o' + n' ≤ o) : Agree m (m.store o' n' v) o n := by
  intro k hk hk'
  rw [store, if_neg (by omega)]

theorem stored_store : Stored (m.store o n v) o n v := by
  intro i hi
  rw [store, if_pos (by omega), Nat.add_sub_cancel_left]

theorem Stored.congr (h : Stored m o n v) (ha : Agree m m' o n) : Stored m' o n v := by
  intro i hi
  rw [ha _ (by omega) (by omega)]
  exact h i hi

theorem Cleared.congr (h : Cleared m o n) (ha : Agree m m' o n) : Cleared m' o n := by
  intro i hi
  rw [ha _ (by omega) (by omega)]
  exact h i hi

theorem Agree.trans {m'' : Block V} (h : Agree m m' o n) (h' : Agree m' m'' o n) :
    Agree m m'' o n :=
  fun k hk hk' => (h' k hk hk').trans (h k hk hk')

theorem Agree.mono (h : Agree m m' o n) (ho : o ≤ o') (hn : o' + n' ≤ o + n) :
    Agree m m' o' n' :=
  fun k hk hk' => h k (by omega) (by omega)

/-- **What is read at a place is one value.** -/
theorem Stored.unique (h : Stored m o n v) (h' : Stored m o n v') (hn : 0 < n) : v = v' := by
  have := (h 0 hn).symm.trans (h' 0 hn)
  injection this

theorem Stored.not_cleared (h : Stored m o n v) (hn : 0 < n) : ¬Cleared m o n := by
  intro hc
  have := (h 0 hn).symm.trans (hc 0 hn)
  cases this

/-- A field of a record: its offset, its size and what it is set to. -/
structure Member (V : Type*) where
  offset : ℕ
  size : ℕ
  value : V

/-- Writing the fields of a record that begins at `base`. -/
def storeFields (base : ℕ) (m : Block V) (fs : List (Member V)) : Block V :=
  fs.foldl (fun m f => m.store (base + f.offset) f.size f.value) m

/-- Fields that have no bytes in common. -/
def Member.Disjoint (f g : Member V) : Prop :=
  f.offset + f.size ≤ g.offset ∨ g.offset + g.size ≤ f.offset

variable {base : ℕ} {fs : List (Member V)}

theorem agree_storeFields
    (h : ∀ f ∈ fs, o + n ≤ base + f.offset ∨ base + f.offset + f.size ≤ o) :
    Agree m (storeFields base m fs) o n := by
  induction fs generalizing m with
  | nil => exact fun _ _ _ => rfl
  | cons f fs ih =>
    exact (agree_store (h f List.mem_cons_self)).trans
      (ih fun g hg => h g (List.mem_cons_of_mem _ hg))

/-- **The fields of a record can be read** if they do not overlap. -/
theorem Stored.of_storeFields (hfs : fs.Pairwise Member.Disjoint) :
    ∀ f ∈ fs, Stored (storeFields base m fs) (base + f.offset) f.size f.value := by
  induction fs generalizing m with
  | nil => exact fun _ hf => absurd hf List.not_mem_nil
  | cons g fs ih =>
    obtain ⟨hg, hfs⟩ := List.pairwise_cons.1 hfs
    intro f hf
    rcases List.mem_cons.1 hf with rfl | hf
    · refine stored_store.congr (agree_storeFields fun f' hf' => ?_)
      have := hg f' hf'
      unfold Member.Disjoint at this
      omega
    · exact ih hfs f hf

end Block

end Swinx
