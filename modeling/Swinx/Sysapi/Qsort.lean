import Swinx.Data.Segments
import Swinx.Data.Yields
import Mathlib.Algebra.Order.Ring.Int
import Mathlib.Tactic.NormNum
import Mathlib.Tactic.Positivity

/-!
# Sorting with a comparison function

`qsort_s` sorts the elements of an array in place: a quick sort that takes the median of the first,
middle and last element to divide the segment, sorts short segments by selection, and saves the
larger part of a divided segment in two arrays of fixed size.  The comparison function has a context
that it may read and change, so nothing says that it answers twice the same.

A position is counted in elements from `base`.  An access to what is not an element of the array, a
save to a full stack and a loop that does not end are faults.

* `qsort_s_moves` — with any comparison function the call returns, it touches nothing but the
  elements, the saved segments fit and the elements are only moved.
* `qsort_s_sorts` — with a comparison function that orders them they are in order afterwards.
-/

namespace Swinx

namespace Qsort

open Segments

/-- What can go wrong. -/
inductive Fault
  /-- an access to what is not an element -/
  | outside
  /-- `lostk` and `histk` are full -/
  | stack
  /-- a loop does not end -/
  | fuel
  deriving DecidableEq, Repr

/-- The elements by their position, and what the context of the comparison function points to. -/
structure State (γ α : Type) where
  mem : ℤ → α
  ctx : γ

/-- `CUTOFF` -/
def CUTOFF : ℤ := 8

/-- `STKSIZ` with pointers of 8 bytes -/
def STKSIZ : ℕ := 8 * 8 - 2

section Code

variable {γ α : Type} (comp : γ → α → α → ℤ × γ) (num : ℤ)

/-- `__COMPARE(context, p, q)` -/
def compare (p q : ℤ) (s : State γ α) : Except Fault (ℤ × State γ α) :=
  if (0 ≤ p ∧ p < num) ∧ 0 ≤ q ∧ q < num then
    let r := comp s.ctx (s.mem p) (s.mem q)
    .ok (r.1, { s with ctx := r.2 })
  else
    .error .outside

/-- `swap(p, q, width)` -/
def swap (p q : ℤ) (s : State γ α) : Except Fault (State γ α) :=
  if (0 ≤ p ∧ p < num) ∧ 0 ≤ q ∧ q < num then
    .ok { s with mem := s.mem ∘ Equiv.swap p q }
  else
    .error .outside

/-! ### Short segments -/

/-- The `for` loop of `shortsort_s` with `n` elements to look at, from `p` on. -/
def findMax : ℕ → ℤ → ℤ → State γ α → Except Fault (ℤ × State γ α)
  | 0, _, max, s => .ok (max, s)
  | n + 1, p, max, s => do
    let (r, s) ← compare comp num p max s
    findMax n (p + 1) (if 0 < r then p else max) s

/-- The `while` loop of `shortsort_s` with `n` elements behind `lo`. -/
def shortsortLoop (lo : ℤ) : ℕ → State γ α → Except Fault (State γ α)
  | 0, s => .ok s
  | n + 1, s => do
    let (max, s) ← findMax comp num (n + 1) (lo + 1) lo s
    let s ← swap num max (lo + (n + 1 : ℕ)) s
    shortsortLoop lo n s

/-- `shortsort_s(lo, hi, width, comp, context)` -/
def shortsort_s (lo hi : ℤ) (s : State γ α) : Except Fault (State γ α) :=
  shortsortLoop comp num lo (hi - lo).toNat s

/-! ### Division of a segment -/

/-- `do { p += step; } while (more(p) && test(__COMPARE(context, p, mid)));` -/
def walk (mid step : ℤ) (more test : ℤ → Bool) : ℕ → ℤ → State γ α →
    Except Fault (ℤ × State γ α)
  | 0, _, _ => .error .fuel
  | fuel + 1, p, s =>
    if more (p + step) then do
      let (r, s) ← compare comp num (p + step) mid s
      if test r then walk mid step more test fuel (p + step) s else .ok (p + step, s)
    else
      .ok (p + step, s)

/-- `if (__COMPARE(context, p, q) > 0) swap(p, q, width);` -/
def sortPair (p q : ℤ) (s : State γ α) : Except Fault (State γ α) := do
  let (r, s) ← compare comp num p q s
  if 0 < r then swap num p q s else .ok s

/-- `loguy` goes up and `higuy` down, each to the next element that is on the wrong side. -/
def scan (fuel : ℕ) (hi mid loguy higuy : ℤ) (s : State γ α) :
    Except Fault (ℤ × ℤ × State γ α) := do
  let (loguy, s) ←
    (if loguy < mid then walk comp num mid 1 (fun p => p < mid) (fun r => r ≤ 0) fuel loguy s
    else .ok (loguy, s))
  let (loguy, s) ←
    (if mid ≤ loguy then walk comp num mid 1 (fun p => p ≤ hi) (fun r => r ≤ 0) fuel loguy s
    else .ok (loguy, s))
  let (higuy, s) ← walk comp num mid (-1) (fun p => mid < p) (fun r => 0 < r) fuel higuy s
  .ok (loguy, higuy, s)

/-- The loop that divides the segment.  It returns `mid`, `loguy` and `higuy`. -/
def partition (size : ℕ) (hi : ℤ) : ℕ → ℤ → ℤ → ℤ → State γ α →
    Except Fault (ℤ × ℤ × ℤ × State γ α)
  | 0, _, _, _, _ => .error .fuel
  | fuel + 1, mid, loguy, higuy, s => do
    let (loguy, higuy, s) ← scan comp num size hi mid loguy higuy s
    if higuy < loguy then
      .ok (mid, loguy, higuy, s)
    else do
      let s ← swap num loguy higuy s
      partition size hi fuel (if mid = higuy then loguy else mid) loguy higuy s

/-- `higuy` goes down over the elements that are equal to the dividing one. -/
def narrow (fuel : ℕ) (lo mid higuy : ℤ) (s : State γ α) : Except Fault (ℤ × State γ α) := do
  let (higuy, s) ←
    (if mid < higuy then walk comp num mid (-1) (fun p => mid < p) (fun r => r = 0) fuel higuy s
    else .ok (higuy, s))
  if higuy ≤ mid then walk comp num mid (-1) (fun p => lo < p) (fun r => r = 0) fuel higuy s
  else .ok (higuy, s)

/-- The segment from `lo` to `hi` is divided.  Returns `loguy` and `higuy`: the parts are the one
from `lo` to `higuy` and the one from `loguy` to `hi`. -/
def split (lo hi : ℤ) (s : State γ α) : Except Fault (ℤ × ℤ × State γ α) := do
  let size := hi - lo + 1
  let mid := lo + size / 2
  let s ← sortPair comp num lo mid s
  let s ← sortPair comp num lo hi s
  let s ← sortPair comp num mid hi s
  let (mid, loguy, higuy, s) ← partition comp num (size + 1).toNat hi size.toNat mid lo hi s
  let (higuy, s) ← narrow comp num (size + 1).toNat lo mid (higuy + 1) s
  .ok (loguy, higuy, s)

/-- `lostk[stkptr] = lo; histk[stkptr] = hi; ++stkptr;` -/
def push (seg : ℤ × ℤ) (stack : List (ℤ × ℤ)) : Except Fault (List (ℤ × ℤ)) :=
  if stack.length < STKSIZ then .ok (seg :: stack) else .error .stack

/-- The larger part is saved, the smaller one comes first.  Parts of one element are left out. -/
def save (lo hi loguy higuy : ℤ) (stack : List (ℤ × ℤ)) : Except Fault (List (ℤ × ℤ)) :=
  if higuy - lo ≥ hi - loguy then do
    let stack ← (if lo < higuy then push (lo, higuy) stack else .ok stack)
    .ok (if loguy < hi then (loguy, hi) :: stack else stack)
  else do
    let stack ← (if loguy < hi then push (loguy, hi) stack else .ok stack)
    .ok (if lo < higuy then (lo, higuy) :: stack else stack)

/-- From the label `recurse` on: the first segment is the one from `lo` to `hi`, the others are on
the stack. -/
def loop : ℕ → List (ℤ × ℤ) → State γ α → Except Fault (State γ α)
  | _, [], s => .ok s
  | 0, _ :: _, _ => .error .fuel
  | fuel + 1, (lo, hi) :: stack, s =>
    if hi - lo + 1 ≤ CUTOFF then do
      let s ← shortsort_s comp num lo hi s
      loop fuel stack s
    else do
      let (loguy, higuy, s) ← split comp num lo hi s
      let todo ← save lo hi loguy higuy stack
      loop fuel todo s

end Code

/-- `qsort_s(base, num, width, comp, context)` -/
def qsort_s {γ α : Type} (comp : γ → α → α → ℤ × γ) (num : ℕ) (s : State γ α) :
    Except Fault (State γ α) :=
  if num < 2 then .ok s
  else loop comp num (2 * num) [(0, (num : ℤ) - 1)] s

section Proofs

variable {γ α : Type} {comp : γ → α → α → ℤ × γ} {le : α → α → Prop} {num : ℤ} {s : State γ α}
  {A : ℤ → α} {lo hi mid loguy higuy p q : ℤ}

/-- The program ends without a fault, and its result has `P`. -/
abbrev Ends {β : Type*} (P : β → Prop) (x : Except Fault β) : Prop := Yields P (fun _ => False) x

/-! ### Answers of the comparison function -/

/-- The comparison of `a` with `b` has an answer that meets the test. -/
def Says (comp : γ → α → α → ℤ × γ) (test : ℤ → Bool) (a b : α) : Prop :=
  ∃ c, test (comp c a b).1 = true

/-- **The comparison function compares by `le`**, whatever its context, and `le` puts any two
elements in order. -/
structure Orders (le : α → α → Prop) (comp : γ → α → α → ℤ × γ) : Prop where
  positive : ∀ c a b, 0 < (comp c a b).1 ↔ ¬ le a b
  zero : ∀ c a b, (comp c a b).1 = 0 → le b a
  total : ∀ a b, le a b ∨ le b a
  trans : ∀ a b c, le a b → le b c → le a c

namespace Orders

variable {a b : α}

theorem refl (h : Orders le comp) (a : α) : le a a :=
  (h.total a a).elim id id

theorem le_of_not_le (h : Orders le comp) (hab : ¬ le a b) : le b a :=
  (h.total a b).resolve_left hab

theorem le_of_says (h : Orders le comp) (hs : Says comp (fun r => r ≤ 0) a b) : le a b := by
  obtain ⟨c, hc⟩ := hs
  have hc : (comp c a b).1 ≤ 0 := of_decide_eq_true hc
  by_contra hab
  have hpos := (h.positive c a b).2 hab
  omega

theorem not_le_of_says (h : Orders le comp) (hs : Says comp (fun r => 0 < r) a b) : ¬ le a b := by
  obtain ⟨c, hc⟩ := hs
  exact (h.positive c a b).1 (of_decide_eq_true hc)

theorem ge_of_says (h : Orders le comp) (hs : Says comp (fun r => r = 0) a b) : le b a := by
  obtain ⟨c, hc⟩ := hs
  exact h.zero c a b (of_decide_eq_true hc)

end Orders

theorem ends_compare (hp : 0 ≤ p ∧ p < num) (hq : 0 ≤ q ∧ q < num) :
    Ends (fun r => r.2.mem = s.mem ∧ ∃ c, r.1 = (comp c (s.mem p) (s.mem q)).1)
      (compare comp num p q s) := by
  rw [compare, if_pos ⟨hp, hq⟩]
  exact Yields.ok ⟨rfl, s.ctx, rfl⟩

theorem ends_swap (hp : 0 ≤ p ∧ p < num) (hq : 0 ≤ q ∧ q < num) :
    Ends (fun t => t.mem = s.mem ∘ Equiv.swap p q) (swap num p q s) := by
  rw [swap, if_pos ⟨hp, hq⟩]
  exact Yields.ok rfl

/-! ### Short segments -/

/-- The element at `max` is a greatest one of those from `lo` to before `p`. -/
theorem ends_findMax {max : ℤ} (n : ℕ) (hlo : 0 ≤ lo) (hmax : lo ≤ max ∧ max < p)
    (hnum : p + n ≤ num)
    (hle : Orders le comp → ∀ i, lo ≤ i → i < p → le (s.mem i) (s.mem max)) :
    Ends (fun r => r.2.mem = s.mem ∧ (lo ≤ r.1 ∧ r.1 < p + n) ∧
      (Orders le comp → ∀ i, lo ≤ i → i < p + n → le (s.mem i) (s.mem r.1)))
      (findMax comp num n p max s) := by
  induction n generalizing p max s with
  | zero =>
    refine Yields.ok ⟨rfl, by simpa using hmax, ?_⟩
    simpa using hle
  | succ n ih =>
    have hcall := @ends_compare _ _ comp num s p max (by omega) (by omega)
    refine Yields.bind hcall ?_
    rintro ⟨r, t⟩ ⟨ht, c, hr⟩
    dsimp only at ht hr ⊢
    have hmax' : lo ≤ (if 0 < r then p else max) ∧ (if 0 < r then p else max) < p + 1 := by
      split <;> omega
    refine (ih hmax' (by omega) ?_).mono ?_
    · intro ho i hi0 hi1
      rw [ht]
      by_cases hpos : 0 < r
      · -- the new element is greater than the greatest one before
        rw [if_pos hpos]
        have hge := ho.le_of_not_le ((ho.positive c _ _).1 (hr ▸ hpos))
        rcases (show i < p ∨ i = p by omega) with hip | rfl
        · exact ho.trans _ _ _ (hle ho i hi0 hip) hge
        · exact ho.refl _
      · rw [if_neg hpos]
        rcases (show i < p ∨ i = p by omega) with hip | rfl
        · exact hle ho i hi0 hip
        · by_contra hnot
          exact hpos (hr ▸ (ho.positive c _ _).2 hnot)
    · rintro ⟨m, u⟩ ⟨hu, hm, hle'⟩
      dsimp only at hu hm hle' ⊢
      rw [ht] at hu hle'
      refine ⟨hu, by omega, ?_⟩
      intro ho i hi0 hi1
      exact hle' ho i hi0 (by omega)

/-- **A short segment is sorted.** -/
theorem ends_shortsortLoop (n : ℕ) (hlo : 0 ≤ lo) (hnum : lo + n < num) :
    Ends (fun t => Moves lo (lo + n) s.mem t.mem ∧
      (Orders le comp → SortedBut le t.mem lo (lo + n) [])) (shortsortLoop comp num lo n s) := by
  induction n generalizing s with
  | zero =>
    refine Yields.ok ⟨Moves.refl _ _ _, ?_⟩
    intro _ i j hi0 hij hj0
    exact absurd hj0 (by push_cast; omega)
  | succ n ih =>
    have hfind := @ends_findMax _ _ comp le num s _ (lo + 1) lo (n + 1) hlo (by omega)
      (by push_cast at *; omega) (by
        intro ho i hi0 hi1
        obtain rfl : i = lo := by omega
        exact ho.refl _)
    refine Yields.bind hfind ?_
    rintro ⟨max, t⟩ ⟨ht, hmax, hle⟩
    dsimp only at ht hmax hle ⊢
    push_cast at hmax hnum
    refine Yields.bind (ends_swap (p := max) (by omega) (by push_cast; omega)) ?_
    intro u hu
    refine (ih (s := u) (by omega)).mono ?_
    rintro v ⟨hmoves, hsorted⟩
    rw [ht] at hu
    have hswap : Moves lo (lo + (n + 1 : ℕ)) s.mem u.mem := by
      rw [hu]
      exact Moves.swap _ (by push_cast; omega) (by push_cast; omega)
    refine ⟨hswap.trans (hmoves.mono le_rfl (by push_cast; omega)), ?_⟩
    intro ho i j hi0 hij hj0
    push_cast at hj0
    rcases (show j ≤ lo + n ∨ j = lo + (n + 1 : ℕ) by push_cast; omega) with hj | rfl
    · exact hsorted ho i j hi0 hij hj
    -- the greatest element is the last one now
    left
    have hlast : v.mem (lo + (n + 1 : ℕ)) = s.mem max := by
      rw [hmoves.outside (by push_cast; omega), hu, Function.comp_apply, Equiv.swap_apply_right]
    rw [hlast]
    refine (hswap.trans (hmoves.mono le_rfl (by push_cast; omega))).forall_inside
      (P := fun a => le a (s.mem max)) ?_ i hi0 (by push_cast; omega)
    intro k hk0 hk1
    exact hle ho k hk0 (by push_cast at hk1 ⊢; omega)

/-! ### Walks to the next element on the wrong side -/

/-- **The rule of the `do` loops**: `I` holds of the positions where the next round begins, and `d`
goes down from one to the next. -/
theorem ends_walk {I : ℤ → Prop} {d : ℤ → ℕ} {step : ℤ} {more test : ℤ → Bool}
    (hmid : 0 ≤ mid ∧ mid < num) (hA : s.mem = A)
    (hin : ∀ q, I q → more (q + step) = true → 0 ≤ q + step ∧ q + step < num)
    (hnext : ∀ q, I q → more (q + step) = true → Says comp test (A (q + step)) (A mid) →
      I (q + step) ∧ d (q + step) < d q)
    (fuel : ℕ) (hfuel : d p < fuel) (hp : I p) :
    Ends (fun r => r.2.mem = A ∧ ∃ q, I q ∧ r.1 = q + step ∧
        (more (q + step) = true → Says comp (fun r => ! test r) (A (q + step)) (A mid)))
      (walk comp num mid step more test fuel p s) := by
  induction fuel generalizing p s with
  | zero => omega
  | succ fuel ih =>
    rw [walk]
    refine Yields.ite ?_ ?_
    · intro hmore
      refine Yields.bind (ends_compare (hin p hp hmore) hmid) ?_
      rintro ⟨r, t⟩ ⟨ht, c, hr⟩
      dsimp only at ht hr ⊢
      rw [hA] at ht hr
      refine Yields.ite ?_ ?_
      · intro htest
        obtain ⟨hI, hd⟩ := hnext p hp hmore ⟨c, hr ▸ htest⟩
        exact ih ht (by omega) hI
      · intro htest
        refine Yields.ok ⟨ht, p, hp, rfl, fun _ => ⟨c, ?_⟩⟩
        rw [← hr]
        simpa using htest
    · intro hmore
      exact Yields.ok ⟨hA, p, hp, rfl, fun h => absurd h hmore⟩

theorem ends_walk_up {more test : ℤ → Bool} {stop : ℤ} (fuel : ℕ) (hmid : 0 ≤ mid ∧ mid < num)
    (hmore : ∀ q, more q = decide (q < stop)) (hp : 0 ≤ p) (hstop : p < stop ∧ stop ≤ num)
    (hfuel : (stop - p).toNat < fuel) :
    Ends (fun r => r.2.mem = s.mem ∧ (p < r.1 ∧ r.1 ≤ stop) ∧
        (∀ i, p < i → i < r.1 → Says comp test (s.mem i) (s.mem mid)) ∧
        (r.1 = stop ∨ Says comp (fun r => ! test r) (s.mem r.1) (s.mem mid)))
      (walk comp num mid 1 more test fuel p s) := by
  have hrule := @ends_walk _ _ comp _ s s.mem _ p
    (fun q => p ≤ q ∧ q < stop ∧ ∀ i, p < i → i ≤ q → Says comp test (s.mem i) (s.mem mid))
    (fun q => (stop - q).toNat) 1 more test hmid rfl ?_ ?_ fuel hfuel
    ⟨le_rfl, hstop.1, fun i hi hi' => by omega⟩
  · refine hrule.mono ?_
    rintro ⟨r, t⟩ ⟨ht, q, ⟨hpq, hq, hall⟩, rfl, hend⟩
    refine ⟨ht, by dsimp only; omega, fun i hi hi' => hall i hi (by dsimp only at hi'; omega), ?_⟩
    by_cases hlast : q + 1 < stop
    · exact .inr (hend (by rw [hmore]; exact decide_eq_true hlast))
    · exact .inl (by dsimp only; omega)
  · intro q hq hm
    rw [hmore, decide_eq_true_eq] at hm
    omega
  · rintro q ⟨hpq, hq, hall⟩ hm htest
    rw [hmore, decide_eq_true_eq] at hm
    refine ⟨⟨by omega, hm, ?_⟩, by omega⟩
    intro i hi hi'
    rcases (show i ≤ q ∨ i = q + 1 by omega) with hiq | rfl
    · exact hall i hi hiq
    · exact htest

theorem ends_walk_down {more test : ℤ → Bool} {stop : ℤ} (fuel : ℕ) (hmid : 0 ≤ mid ∧ mid < num)
    (hmore : ∀ q, q < p → more q = decide (stop < q)) (hp : p ≤ num)
    (hstop : 0 ≤ stop ∧ stop < p) (hfuel : (p - stop).toNat < fuel) :
    Ends (fun r => r.2.mem = s.mem ∧ (stop ≤ r.1 ∧ r.1 < p) ∧
        (∀ i, r.1 < i → i < p → Says comp test (s.mem i) (s.mem mid)) ∧
        (r.1 = stop ∨ Says comp (fun r => ! test r) (s.mem r.1) (s.mem mid)))
      (walk comp num mid (-1) more test fuel p s) := by
  have hrule := @ends_walk _ _ comp _ s s.mem _ p
    (fun q => q ≤ p ∧ stop < q ∧ ∀ i, q ≤ i → i < p → Says comp test (s.mem i) (s.mem mid))
    (fun q => (q - stop).toNat) (-1) more test hmid rfl ?_ ?_ fuel hfuel
    ⟨le_rfl, hstop.2, fun i hi hi' => by omega⟩
  · refine hrule.mono ?_
    rintro ⟨r, t⟩ ⟨ht, q, ⟨hpq, hq, hall⟩, rfl, hend⟩
    refine ⟨ht, by dsimp only; omega, fun i hi hi' => hall i (by dsimp only at hi; omega) hi', ?_⟩
    by_cases hlast : stop < q + -1
    · exact .inr (hend (by rw [hmore _ (by omega)]; exact decide_eq_true hlast))
    · exact .inl (by dsimp only; omega)
  · rintro q ⟨hpq, hq, -⟩ hm
    rw [hmore _ (by omega), decide_eq_true_eq] at hm
    omega
  · rintro q ⟨hpq, hq, hall⟩ hm htest
    rw [hmore _ (by omega), decide_eq_true_eq] at hm
    refine ⟨⟨by omega, hm, ?_⟩, by omega⟩
    intro i hi hi'
    rcases (show q ≤ i ∨ i = q + -1 by omega) with hiq | rfl
    · exact hall i hiq hi'
    · exact htest

theorem Orders.not_le_of_not_says {a b : α} (h : Orders le comp)
    (hs : Says comp (fun r => ! decide (r ≤ 0)) a b) : ¬ le a b := by
  obtain ⟨c, hc⟩ := hs
  refine h.not_le_of_says ⟨c, ?_⟩
  simpa using hc

theorem Orders.le_of_not_says {a b : α} (h : Orders le comp)
    (hs : Says comp (fun r => ! decide (0 < r)) a b) : le a b := by
  obtain ⟨c, hc⟩ := hs
  refine h.le_of_says ⟨c, ?_⟩
  simpa using hc

/-! ### Division of a segment -/

/-- Where the dividing element lies, and how the travelling pointers do. -/
structure Divided (le : α → α → Prop) (comp : γ → α → α → ℤ × γ) (lo hi : ℤ) (A : ℤ → α)
    (mid loguy higuy : ℤ) : Prop where
  place : lo < mid ∧ mid < hi
  order : lo ≤ loguy ∧ loguy ≤ higuy ∧ lo < higuy ∧ higuy ≤ hi
  low : Orders le comp → ∀ i, lo ≤ i → i ≤ loguy → le (A i) (A mid)
  high : Orders le comp → ∀ i, higuy ≤ i → i < hi → ¬ le (A i) (A mid)
  last : Orders le comp → le (A mid) (A hi)

/-- How they lie when both have stopped. -/
structure Scanned (le : α → α → Prop) (comp : γ → α → α → ℤ × γ) (lo hi : ℤ) (A : ℤ → α)
    (mid loguy higuy : ℤ) : Prop where
  place : lo < mid ∧ mid < hi
  order : lo < loguy ∧ loguy ≤ hi + 1 ∧ loguy ≠ mid ∧ lo ≤ higuy ∧ higuy < hi
  low : Orders le comp → ∀ i, lo ≤ i → i < loguy → le (A i) (A mid)
  high : Orders le comp → ∀ i, higuy < i → i < hi → ¬ le (A i) (A mid)
  last : Orders le comp → le (A mid) (A hi)
  stopLow : Orders le comp → loguy ≤ hi → ¬ le (A loguy) (A mid)
  stopHigh : Orders le comp → le (A higuy) (A mid)

/-- **One round**: both pointers get past what is on the right side. -/
theorem ends_scan (fuel : ℕ) (hlo : 0 ≤ lo) (hhi : hi < num) (hfuel : (hi - lo + 1).toNat < fuel)
    (h : Divided le comp lo hi s.mem mid loguy higuy) :
    Ends (fun r => r.2.2.mem = s.mem ∧ Scanned le comp lo hi s.mem mid r.1 r.2.1 ∧
        loguy < r.1 ∧ r.2.1 < higuy)
      (scan comp num fuel hi mid loguy higuy s) := by
  obtain ⟨hplace, horder, hlow, hhigh, hlast⟩ := h
  -- up to the dividing element
  have hfirst : Ends (fun r => r.2.mem = s.mem ∧ (loguy ≤ r.1 ∧ r.1 ≤ max loguy mid) ∧
      (r.1 < mid → loguy < r.1) ∧
      (Orders le comp → ∀ i, lo ≤ i → i < r.1 → le (s.mem i) (s.mem mid)) ∧
      (Orders le comp → r.1 < mid → ¬ le (s.mem r.1) (s.mem mid)) ∧
      (Orders le comp → mid ≤ r.1 → le (s.mem r.1) (s.mem mid)))
      (if loguy < mid then walk comp num mid 1 (fun p => p < mid) (fun r => r ≤ 0) fuel loguy s
        else .ok (loguy, s)) := by
    refine Yields.ite ?_ ?_
    · intro hlt
      refine (@ends_walk_up _ _ _ _ _ _ loguy _ _ mid fuel (by omega) (fun _ => rfl) (by omega)
        (by omega) (by omega)).mono ?_
      rintro ⟨l, t⟩ ⟨ht, hl, hall, hend⟩
      dsimp only at ht hl hall hend ⊢
      refine ⟨ht, by omega, by omega, ?_, ?_, ?_⟩
      · intro ho i hi0 hi1
        by_cases hil : i ≤ loguy
        · exact hlow ho i hi0 hil
        · exact ho.le_of_says (hall i (by omega) hi1)
      · intro ho hlm
        exact ho.not_le_of_not_says (hend.resolve_left (by omega))
      · intro ho hml
        obtain rfl : l = mid := by omega
        exact ho.refl _
    · intro hge
      refine Yields.ok ⟨rfl, by omega, fun h => by dsimp only at h; omega, ?_, ?_, ?_⟩
      · intro ho i hi0 hi1
        exact hlow ho i hi0 (le_of_lt hi1)
      · intro _ h
        exact absurd h hge
      · intro ho _
        exact hlow ho loguy (by omega) le_rfl
  refine Yields.bind hfirst ?_
  rintro ⟨l₁, t₁⟩ ⟨ht₁, hl₁, hbelow₁, hlow₁, hstop₁, hat₁⟩
  dsimp only at ht₁ hl₁ hbelow₁ hlow₁ hstop₁ hat₁ ⊢
  -- and on behind it
  have hsecond : Ends (fun r => r.2.mem = s.mem ∧ (loguy < r.1 ∧ r.1 ≤ hi + 1 ∧ r.1 ≠ mid) ∧
      (Orders le comp → ∀ i, lo ≤ i → i < r.1 → le (s.mem i) (s.mem mid)) ∧
      (Orders le comp → r.1 ≤ hi → ¬ le (s.mem r.1) (s.mem mid)))
      (if mid ≤ l₁ then walk comp num mid 1 (fun p => p ≤ hi) (fun r => r ≤ 0) fuel l₁ t₁
        else .ok (l₁, t₁)) := by
    refine Yields.ite ?_ ?_
    · intro hle
      refine (@ends_walk_up _ _ _ _ _ _ l₁ _ _ (hi + 1) fuel (by omega)
        (fun q => by rw [decide_eq_decide]; omega) (by omega) (by omega) (by omega)).mono ?_
      rintro ⟨l, t⟩ ⟨ht, hl, hall, hend⟩
      dsimp only at ht hl hall hend ⊢
      rw [ht₁] at ht hall hend
      refine ⟨ht, by omega, ?_, ?_⟩
      · intro ho i hi0 hi1
        rcases lt_trichotomy i l₁ with hil | rfl | hil
        · exact hlow₁ ho i hi0 hil
        · exact hat₁ ho hle
        · exact ho.le_of_says (hall i hil hi1)
      · intro ho hlhi
        exact ho.not_le_of_not_says (hend.resolve_left (by omega))
    · intro hlt
      exact Yields.ok ⟨ht₁, ⟨hbelow₁ (by omega), by dsimp only; omega, by dsimp only; omega⟩, hlow₁,
        fun ho _ => hstop₁ ho (by omega)⟩
  refine Yields.bind hsecond ?_
  rintro ⟨l, t₂⟩ ⟨ht₂, hl, hlow₂, hstop₂⟩
  dsimp only at ht₂ hl hlow₂ hstop₂ ⊢
  -- down to the dividing element, or one step when that is above
  have hthird := @ends_walk_down _ _ comp num t₂ mid higuy (fun p => decide (mid < p))
    (fun r => decide (0 < r)) (min mid (higuy - 1)) fuel (by omega)
    (fun q hq => by rw [decide_eq_decide]; omega) (by omega) (by omega) (by omega)
  refine Yields.bind hthird ?_
  rintro ⟨h, t⟩ ⟨ht, hh, hall, hend⟩
  dsimp only at ht hh hall hend ⊢
  rw [ht₂] at ht hall hend
  have hhigh₃ : Orders le comp → ∀ i, h < i → i < hi → ¬ le (s.mem i) (s.mem mid) := by
    intro ho i hi0 hi1
    by_cases hih : higuy ≤ i
    · exact hhigh ho i hih hi1
    · exact ho.not_le_of_says (hall i hi0 (by omega))
  refine Yields.ok ⟨ht, ⟨hplace, ?_, hlow₂, hhigh₃, hlast, hstop₂, ?_⟩, hl.1, hh.2⟩
  · dsimp only
    omega
  intro ho
  rcases hend with heq | hend
  · -- the dividing element is not above `higuy`, so the walk went down to it
    have hmid : ¬ h < mid := fun hlt => hhigh₃ ho mid hlt hplace.2 (ho.refl _)
    obtain rfl : h = mid := by omega
    exact ho.refl _
  · exact ho.le_of_not_says hend

/-- **The two elements that stopped the pointers change places**, and the dividing one is followed
when it is one of them. -/
theorem Scanned.divided (h : Scanned le comp lo hi A mid loguy higuy) (hle : loguy ≤ higuy) :
    Divided le comp lo hi (A ∘ Equiv.swap loguy higuy) (if mid = higuy then loguy else mid) loguy
      higuy := by
  obtain ⟨hplace, horder, hlow, hhigh, hlast, hstopLow, hstopHigh⟩ := h
  have hmid : (A ∘ Equiv.swap loguy higuy) (if mid = higuy then loguy else mid) = A mid := by
    rw [Function.comp_apply]
    split
    · next heq => rw [Equiv.swap_apply_left, heq]
    · next hne => rw [Equiv.swap_apply_of_ne_of_ne (Ne.symm horder.2.2.1) hne]
  have hat : ∀ i, i ≠ loguy → i ≠ higuy → (A ∘ Equiv.swap loguy higuy) i = A i := fun i h1 h2 =>
    congrArg A (Equiv.swap_apply_of_ne_of_ne h1 h2)
  refine ⟨by split <;> omega, by omega, ?_, ?_, ?_⟩
  · intro ho i hi0 hi1
    rw [hmid]
    rcases (show i < loguy ∨ i = loguy by omega) with hil | rfl
    · rw [hat i (by omega) (by omega)]
      exact hlow ho i hi0 hil
    · rw [Function.comp_apply, Equiv.swap_apply_left]
      exact hstopHigh ho
  · intro ho i hi0 hi1
    rw [hmid]
    rcases (show higuy < i ∨ i = higuy by omega) with hil | rfl
    · rw [hat i (by omega) (by omega)]
      exact hhigh ho i hil hi1
    · rw [Function.comp_apply, Equiv.swap_apply_right]
      exact hstopLow ho (by omega)
  · intro ho
    rw [hmid, hat hi (by omega) (by omega)]
    exact hlast ho

/-- **The loop that divides the segment ends**, with `higuy` below `loguy`. -/
theorem ends_partition (size : ℕ) (hlo : 0 ≤ lo) (hhi : hi < num)
    (hsize : (hi - lo + 1).toNat < size) (fuel : ℕ) (hfuel : (higuy - loguy).toNat < fuel)
    (h : Divided le comp lo hi s.mem mid loguy higuy) :
    Ends (fun r => Moves lo hi s.mem r.2.2.2.mem ∧ r.2.2.1 < r.2.1 ∧
        Scanned le comp lo hi r.2.2.2.mem r.1 r.2.1 r.2.2.1)
      (partition comp num size hi fuel mid loguy higuy s) := by
  induction fuel generalizing mid loguy higuy s with
  | zero => omega
  | succ fuel ih =>
    refine Yields.bind (ends_scan size hlo hhi hsize h) ?_
    rintro ⟨l, r, t⟩ ⟨ht, hscan, hl, hr⟩
    dsimp only at ht hscan hl hr ⊢
    have horder := hscan.order
    refine Yields.ite ?_ ?_
    · intro hlt
      exact Yields.ok ⟨ht ▸ Moves.refl _ _ _, hlt, ht ▸ hscan⟩
    · intro hge
      refine Yields.bind (ends_swap (by omega) (by omega)) ?_
      intro u hu
      rw [ht] at hu
      have hswap : Moves lo hi s.mem u.mem := by
        rw [hu]
        exact Moves.swap _ (by omega) (by omega)
      refine (ih (by omega) (hu ▸ hscan.divided (by omega))).mono ?_
      rintro x ⟨hmoves, hx⟩
      exact ⟨hswap.trans hmoves, hx⟩

/-- **The elements between the parts are equal** to the dividing one. -/
theorem ends_narrow (fuel : ℕ) (hlo : 0 ≤ lo) (hhi : hi < num)
    (hfuel : (hi - lo + 1).toNat < fuel) (h : Scanned le comp lo hi s.mem mid loguy higuy) :
    Ends (fun r => r.2.mem = s.mem ∧ (lo ≤ r.1 ∧ r.1 ≤ higuy) ∧
        (Orders le comp → ∀ i, r.1 < i → i ≤ higuy → le (s.mem mid) (s.mem i)))
      (narrow comp num fuel lo mid (higuy + 1) s) := by
  obtain ⟨hplace, horder, -, hhigh, -, -, -⟩ := h
  have hmid : Orders le comp → mid ≤ higuy := by
    intro ho
    by_contra hlt
    exact hhigh ho mid (by omega) hplace.2 (ho.refl _)
  have hfirst : Ends (fun r => r.2.mem = s.mem ∧ (min mid (higuy + 1) ≤ r.1 ∧ r.1 ≤ higuy + 1) ∧
      (mid < r.1 → r.1 ≤ higuy) ∧
      (Orders le comp → ∀ i, r.1 < i → i ≤ higuy → le (s.mem mid) (s.mem i)))
      (if mid < higuy + 1 then walk comp num mid (-1) (fun p => mid < p) (fun r => r = 0) fuel
        (higuy + 1) s else .ok (higuy + 1, s)) := by
    refine Yields.ite ?_ ?_
    · intro hlt
      refine (@ends_walk_down _ _ _ _ _ _ (higuy + 1) _ _ mid fuel (by omega) (fun _ _ => rfl)
        (by omega) (by omega) (by omega)).mono ?_
      rintro ⟨r, t⟩ ⟨ht, hr, hall, -⟩
      dsimp only at ht hr hall ⊢
      refine ⟨ht, by omega, by omega, ?_⟩
      intro ho i hi0 hi1
      exact ho.ge_of_says (hall i hi0 (by omega))
    · intro hge
      refine Yields.ok ⟨rfl, by dsimp only; omega, by dsimp only; omega, ?_⟩
      intro _ i hi0 hi1
      dsimp only at hi0
      omega
  refine Yields.bind hfirst ?_
  rintro ⟨r, t⟩ ⟨ht, hr, hbelow, hge⟩
  dsimp only at ht hr hbelow hge ⊢
  refine Yields.ite ?_ ?_
  · intro hle
    refine (@ends_walk_down _ _ _ _ _ _ r _ _ lo fuel (by omega) (fun _ _ => rfl) (by omega)
      (by omega) (by omega)).mono ?_
    rintro ⟨q, u⟩ ⟨hu, hq, hall, -⟩
    dsimp only at hu hq hall ⊢
    rw [ht] at hu hall
    refine ⟨hu, by omega, ?_⟩
    intro ho i hi0 hi1
    rcases lt_trichotomy i r with hir | rfl | hir
    · exact ho.ge_of_says (hall i hi0 hir)
    · -- the second walk begins at the dividing element
      have hmid' := hmid ho
      obtain rfl : i = mid := by omega
      exact ho.refl _
    · exact hge ho i hir hi1
  · intro hlt
    exact Yields.ok ⟨ht, ⟨by dsimp only; omega, hbelow (by omega)⟩, hge⟩

/-- **Two elements are put in order**: the lower one is not greater than what was there. -/
theorem ends_sortPair (hlo : 0 ≤ lo) (hhi : hi < num) (hp : lo ≤ p ∧ p ≤ hi)
    (hq : lo ≤ q ∧ q ≤ hi) :
    Ends (fun t => Moves lo hi s.mem t.mem ∧ (∀ i, i ≠ p → i ≠ q → t.mem i = s.mem i) ∧
        (Orders le comp → le (t.mem p) (t.mem q) ∧ le (t.mem p) (s.mem p) ∧
          ∀ a, le a (s.mem p) → le a (s.mem q) → le a (t.mem p)))
      (sortPair comp num p q s) := by
  refine Yields.bind (ends_compare (by omega) (by omega)) ?_
  rintro ⟨r, t⟩ ⟨ht, c, hr⟩
  dsimp only at ht hr ⊢
  refine Yields.ite ?_ ?_
  · intro hpos
    refine (ends_swap (by omega) (by omega)).mono ?_
    intro u hu
    rw [ht] at hu
    refine ⟨hu ▸ Moves.swap _ hp hq, ?_, ?_⟩
    · intro i hip hiq
      rw [hu, Function.comp_apply, Equiv.swap_apply_of_ne_of_ne hip hiq]
    · intro ho
      have hge := ho.le_of_not_le ((ho.positive c _ _).1 (hr ▸ hpos))
      rw [hu, Function.comp_apply, Function.comp_apply, Equiv.swap_apply_left,
        Equiv.swap_apply_right]
      exact ⟨hge, hge, fun _ _ haq => haq⟩
  · intro hpos
    refine Yields.ok ⟨ht ▸ Moves.refl _ _ _, fun i _ _ => by rw [ht], ?_⟩
    intro ho
    rw [ht]
    refine ⟨?_, ho.refl _, fun _ hap _ => hap⟩
    by_contra hnot
    exact hpos (hr ▸ (ho.positive c _ _).2 hnot)

theorem ends_median (hlo : 0 ≤ lo) (hhi : hi < num) (hplace : lo < mid ∧ mid < hi) :
    Ends (fun t => Moves lo hi s.mem t.mem ∧ Divided le comp lo hi t.mem mid lo hi)
      (do
        let s ← sortPair comp num lo mid s
        let s ← sortPair comp num lo hi s
        sortPair comp num mid hi s) := by
  refine Yields.bind (@ends_sortPair _ _ _ le _ _ _ hi _ _ hlo hhi (by omega) (by omega)) ?_
  rintro t₁ ⟨hm₁, -, ho₁⟩
  refine Yields.bind (@ends_sortPair _ _ _ le _ _ _ _ _ _ hlo hhi (by omega) (by omega)) ?_
  rintro t₂ ⟨hm₂, hf₂, ho₂⟩
  refine (@ends_sortPair _ _ _ le _ _ _ _ _ _ hlo hhi (by omega) (by omega)).mono ?_
  rintro t₃ ⟨hm₃, hf₃, ho₃⟩
  refine ⟨(hm₁.trans hm₂).trans hm₃, ⟨hplace, by omega, ?_, by omega, fun ho => (ho₃ ho).1⟩⟩
  intro ho i hi0 hi1
  obtain rfl : i = lo := by omega
  -- the first element was not greater than the two others before they changed places
  rw [hf₃ i (by omega) (by omega)]
  refine (ho₃ ho).2.2 _ ?_ (ho₂ ho).1
  rw [hf₂ mid (by omega) (by omega)]
  exact ho.trans _ _ _ (ho₂ ho).2.1 (ho₁ ho).1

/-- **A segment is divided**: its elements are moved, and only those of the parts are left to be
sorted. -/
theorem ends_split (hlo : 0 ≤ lo) (hhi : hi < num) (hsize : 2 < hi - lo + 1) :
    Ends (fun r => Moves lo hi s.mem r.2.2.mem ∧
        (lo < r.1 ∧ r.2.1 < r.1 ∧ lo ≤ r.2.1 ∧ r.2.1 < hi) ∧
        (Orders le comp → SortedBut le r.2.2.mem lo hi [(lo, r.2.1), (r.1, hi)]))
      (split comp num lo hi s) := by
  have hassoc : split comp num lo hi s = (do
      let s ← (do
        let s ← sortPair comp num lo (lo + (hi - lo + 1) / 2) s
        let s ← sortPair comp num lo hi s
        sortPair comp num (lo + (hi - lo + 1) / 2) hi s)
      let (mid, loguy, higuy, s) ← partition comp num (hi - lo + 1 + 1).toNat hi
        (hi - lo + 1).toNat (lo + (hi - lo + 1) / 2) lo hi s
      let (higuy, s) ← narrow comp num (hi - lo + 1 + 1).toNat lo mid (higuy + 1) s
      .ok (loguy, higuy, s)) := by
    simp only [split, bind_assoc]
  rw [hassoc]
  refine Yields.bind (@ends_median _ _ _ le _ _ _ _ _ hlo hhi (by omega)) ?_
  rintro t ⟨hmoves, hdiv⟩
  refine Yields.bind (ends_partition _ hlo hhi (by omega) _ (by omega) hdiv) ?_
  rintro ⟨mid, loguy, higuy, u⟩ ⟨hmoves', hlt, hscan⟩
  dsimp only at hmoves' hlt hscan ⊢
  refine Yields.bind (ends_narrow _ hlo hhi (by omega) hscan) ?_
  rintro ⟨high, v⟩ ⟨hv, hhigh, heq⟩
  dsimp only at hv hhigh heq ⊢
  obtain ⟨hplace, horder, hlow, habove, hlast, -, -⟩ := hscan
  refine Yields.ok ⟨hv ▸ hmoves.trans hmoves', by dsimp only; omega, ?_⟩
  intro ho
  have hge : ∀ i, high < i → i ≤ hi → le (u.mem mid) (u.mem i) := by
    intro i hi0 hi1
    by_cases hih : i ≤ higuy
    · exact heq ho i hi0 hih
    rcases (show i < hi ∨ i = hi by omega) with hilt | rfl
    · exact ho.le_of_not_le (habove ho i (by omega) hilt)
    · exact hlast ho
  intro i j hi0 hij hj1
  dsimp only
  rw [hv]
  by_cases hj : j ≤ high
  · exact .inr ⟨(lo, high), List.mem_cons_self, hi0, hj⟩
  by_cases hi : loguy ≤ i
  · exact .inr ⟨(loguy, _), List.mem_cons_of_mem _ List.mem_cons_self, hi, hj1⟩
  -- below `loguy` nothing is greater than the dividing element, above the first part nothing less
  exact .inl (ho.trans _ _ _ (hlow ho i hi0 (by omega)) (hge j (by omega) hj1))

/-! ### Segments that are left -/

variable {stack todo : List (ℤ × ℤ)}

/-- The parts of two elements or more, the one that is sorted first in front. -/
def parts (lo hi loguy higuy : ℤ) : List (ℤ × ℤ) :=
  if higuy - lo ≥ hi - loguy then
    (if loguy < hi then [(loguy, hi)] else []) ++ if lo < higuy then [(lo, higuy)] else []
  else
    (if lo < higuy then [(lo, higuy)] else []) ++ if loguy < hi then [(loguy, hi)] else []

theorem mem_parts {seg : ℤ × ℤ} : seg ∈ parts lo hi loguy higuy ↔
    seg = (lo, higuy) ∧ lo < higuy ∨ seg = (loguy, hi) ∧ loguy < hi := by
  have hmem : ∀ (c : Prop) [Decidable c] (t : ℤ × ℤ), seg ∈ (if c then [t] else []) ↔
      seg = t ∧ c := by
    intro c _ t
    split <;> simp_all
  rw [parts]
  split
  · rw [List.mem_append, hmem, hmem, or_comm]
  · rw [List.mem_append, hmem, hmem]

theorem save_eq (hstack : stack.length < STKSIZ) :
    save lo hi loguy higuy stack = .ok (parts lo hi loguy higuy ++ stack) := by
  have hpush : ∀ seg : ℤ × ℤ, push seg stack = .ok (seg :: stack) := fun _ => if_pos hstack
  rw [save, parts]
  by_cases hlow : lo < higuy <;> by_cases hhigh : loguy < hi <;>
    simp only [hpush, hlow, hhigh, if_true, if_false] <;> split <;> rfl

/-- The segments that wait fit into an array of `num` elements, each half as large at most as the
one under it. -/
def Deep (num : ℤ) : List (ℤ × ℤ) → Prop
  | [] => True
  | seg :: rest => (seg.2 - seg.1 + 1) * 2 ^ rest.length ≤ num ∧ Deep num rest

/-- **What holds of the segments that are left**: they are segments of the array, no two of them
overlap, and the stack is not deep. -/
structure Todo (num : ℤ) (todo : List (ℤ × ℤ)) : Prop where
  inside : ∀ seg ∈ todo, 0 ≤ seg.1 ∧ seg.1 < seg.2 ∧ seg.2 < num
  clear : todo.Pairwise Clear
  deep : Deep num todo

theorem Todo.tail {seg : ℤ × ℤ} (h : Todo num (seg :: stack)) : Todo num stack :=
  ⟨fun t ht => h.inside t (List.mem_cons_of_mem _ ht), (List.pairwise_cons.1 h.clear).2, h.deep.2⟩

/-- **There is room on the stack** when a segment is divided that is not short. -/
theorem Todo.room (hnum : num < 2 ^ 64) (h : Todo num ((lo, hi) :: stack))
    (hsize : CUTOFF < hi - lo + 1) : stack.length < STKSIZ := by
  have hdeep : (hi - lo + 1) * 2 ^ stack.length ≤ num := h.deep.1
  by_contra hfull
  have hpow : (2 : ℤ) ^ 62 ≤ 2 ^ stack.length :=
    pow_le_pow_right₀ (by norm_num) (not_lt.1 hfull)
  have hmul : (9 : ℤ) * 2 ^ 62 ≤ (hi - lo + 1) * 2 ^ stack.length :=
    mul_le_mul (by rw [CUTOFF] at hsize; omega) hpow (by positivity)
      (by rw [CUTOFF] at hsize; omega)
  norm_num at hmul hnum
  omega

theorem pairwise_parts (hlt : higuy < loguy) : (parts lo hi loguy higuy).Pairwise Clear := by
  have hleft : Clear (lo, higuy) (loguy, hi) := .inl hlt
  have hright : Clear (loguy, hi) (lo, higuy) := .inr hlt
  rw [parts]
  by_cases hlow : lo < higuy <;> by_cases hhigh : loguy < hi <;>
    simp only [hlow, hhigh, if_true, if_false] <;> split <;> simp [hleft, hright]

theorem deep_parts (horder : lo < loguy ∧ higuy < loguy ∧ lo ≤ higuy ∧ higuy < hi)
    (h : Deep num ((lo, hi) :: stack)) : Deep num (parts lo hi loguy higuy ++ stack) := by
  obtain ⟨hhead, hrest⟩ := h
  dsimp only at hhead
  have hpos : (0 : ℤ) < 2 ^ stack.length := by positivity
  have hone : ∀ n : ℤ, n ≤ hi - lo + 1 → n * 2 ^ stack.length ≤ num := fun n hn =>
    (mul_le_mul_of_nonneg_right hn hpos.le).trans hhead
  -- the part in front is the smaller one, so twice its size is not more than the whole
  have htwo : ∀ n : ℤ, n + n ≤ hi - lo + 1 → n * 2 ^ (stack.length + 1) ≤ num := by
    intro n hn
    rw [pow_succ, ← mul_assoc, mul_right_comm]
    exact hone _ (by omega)
  rw [parts]
  by_cases hlow : lo < higuy <;> by_cases hhigh : loguy < hi <;>
    simp only [hlow, hhigh, if_true, if_false] <;> split
  · exact ⟨htwo _ (by dsimp only; omega), hone _ (by dsimp only; omega), hrest⟩
  · exact ⟨htwo _ (by dsimp only; omega), hone _ (by dsimp only; omega), hrest⟩
  · exact ⟨hone _ (by dsimp only; omega), hrest⟩
  · exact ⟨hone _ (by dsimp only; omega), hrest⟩
  · exact ⟨hone _ (by dsimp only; omega), hrest⟩
  · exact ⟨hone _ (by dsimp only; omega), hrest⟩
  · exact hrest
  · exact hrest

theorem Todo.split (h : Todo num ((lo, hi) :: stack))
    (horder : lo < loguy ∧ higuy < loguy ∧ lo ≤ higuy ∧ higuy < hi) :
    Todo num (parts lo hi loguy higuy ++ stack) := by
  have hseg := h.inside _ List.mem_cons_self
  have hclear := (List.pairwise_cons.1 h.clear).1
  dsimp only at hseg
  refine ⟨?_, List.pairwise_append.2 ⟨pairwise_parts horder.2.1, h.tail.clear, ?_⟩,
    deep_parts horder h.deep⟩
  · intro seg hmem
    rcases List.mem_append.1 hmem with hmem | hmem
    · rcases mem_parts.1 hmem with ⟨rfl, hlt⟩ | ⟨rfl, hlt⟩
      · dsimp only
        omega
      · dsimp only
        omega
    · exact h.tail.inside seg hmem
  · intro seg hmem t ht
    have hap : hi < t.1 ∨ t.2 < lo := hclear t ht
    rcases mem_parts.1 hmem with ⟨rfl, -⟩ | ⟨rfl, -⟩
    · exact hap.imp (fun h => by dsimp only; omega) fun h => by dsimp only; omega
    · exact hap.imp (fun h => by dsimp only; omega) fun h => by dsimp only; omega

/-- A bound for the number of segments that are sorted until nothing is left. -/
def weight (todo : List (ℤ × ℤ)) : ℕ := (todo.map fun seg => (2 * (seg.2 - seg.1) + 1).toNat).sum

theorem weight_parts (horder : lo < loguy ∧ higuy < loguy ∧ lo ≤ higuy ∧ higuy < hi) :
    weight (parts lo hi loguy higuy ++ stack) < weight ((lo, hi) :: stack) := by
  rw [parts]
  by_cases hlow : lo < higuy <;> by_cases hhigh : loguy < hi <;>
    simp only [hlow, hhigh, if_true, if_false] <;> split <;>
    simp only [weight, List.cons_append, List.nil_append, List.map_cons, List.sum_cons] <;> omega

/-- **The loop ends**, the elements are moved, and nothing is left to be sorted. -/
theorem ends_loop (hnum : num < 2 ^ 64) (fuel : ℕ) (hfuel : weight todo ≤ fuel)
    (h : Todo num todo) :
    Ends (fun t => Moves 0 (num - 1) s.mem t.mem ∧ (Orders le comp →
        SortedBut le s.mem 0 (num - 1) todo → SortedBut le t.mem 0 (num - 1) []))
      (loop comp num fuel todo s) := by
  induction fuel generalizing todo s with
  | zero =>
    cases todo with
    | nil => exact Yields.ok ⟨Moves.refl _ _ _, fun _ hs => hs⟩
    | cons seg stack =>
      have hseg := h.inside seg List.mem_cons_self
      simp only [weight, List.map_cons, List.sum_cons] at hfuel
      omega
  | succ fuel ih =>
    cases todo with
    | nil => exact Yields.ok ⟨Moves.refl _ _ _, fun _ hs => hs⟩
    | cons seg stack =>
      obtain ⟨lo, hi⟩ := seg
      have hseg := h.inside (lo, hi) List.mem_cons_self
      have hclear := (List.pairwise_cons.1 h.clear).1
      dsimp only at hseg
      -- what is done with the segment leaves `new` in its place
      have hgoOn : ∀ (new : List (ℤ × ℤ)) (t : State γ α), Todo num (new ++ stack) →
          weight (new ++ stack) < weight ((lo, hi) :: stack) → Moves lo hi s.mem t.mem →
          (Orders le comp → SortedBut le t.mem lo hi new) →
          Ends (fun t => Moves 0 (num - 1) s.mem t.mem ∧ (Orders le comp →
              SortedBut le s.mem 0 (num - 1) ((lo, hi) :: stack) →
              SortedBut le t.mem 0 (num - 1) [])) (loop comp num fuel (new ++ stack) t) := by
        intro new t hnew hweight hmoves hsorted
        refine (ih (by omega) hnew).mono ?_
        rintro u ⟨hmoves', hsorted'⟩
        refine ⟨(hmoves.mono (by omega) (by omega)).trans hmoves', ?_⟩
        intro ho hs
        exact hsorted' ho (hs.replace (by dsimp only; omega) (by dsimp only; omega) hclear hmoves
          (hsorted ho))
      rw [loop]
      refine Yields.ite ?_ ?_
      · intro hshort
        have hlen : lo + ((hi - lo).toNat : ℤ) = hi := by omega
        have hsort := @ends_shortsortLoop _ _ comp le num s lo (hi - lo).toNat hseg.1 (by omega)
        rw [hlen] at hsort
        refine Yields.bind hsort ?_
        rintro t ⟨hmoves, hsorted⟩
        refine hgoOn [] t h.tail ?_ hmoves hsorted
        simp only [weight, List.nil_append, List.map_cons, List.sum_cons]
        omega
      · intro hlong
        rw [CUTOFF] at hlong
        refine Yields.bind (@ends_split _ _ _ le _ _ _ _ hseg.1 hseg.2.2 (by omega)) ?_
        rintro ⟨loguy, higuy, t⟩ ⟨hmoves, horder, hsorted⟩
        dsimp only at hmoves horder hsorted ⊢
        rw [save_eq (h.room hnum (by rw [CUTOFF]; omega))]
        refine hgoOn _ t (h.split horder) (weight_parts horder) hmoves ?_
        intro ho i j hi0 hij hj0
        rcases hsorted ho i j hi0 hij hj0 with hle | ⟨seg, hmem, hin⟩
        · exact .inl hle
        · -- two elements of a part are a reason to keep it
          refine .inr ⟨seg, mem_parts.2 ?_, hin⟩
          rcases List.mem_cons.1 hmem with rfl | hmem
          · exact .inl ⟨rfl, by dsimp only at hin; omega⟩
          · obtain rfl := List.mem_singleton.1 hmem
            exact .inr ⟨rfl, by dsimp only at hin; omega⟩

theorem ends_qsort_s (num : ℕ) (hnum : num < 2 ^ 64) :
    Ends (fun t => Moves 0 ((num : ℤ) - 1) s.mem t.mem ∧
        (Orders le comp → SortedBut le t.mem 0 ((num : ℤ) - 1) [])) (qsort_s comp num s) := by
  refine Yields.ite ?_ ?_
  · intro hfew
    refine Yields.ok ⟨Moves.refl _ _ _, ?_⟩
    intro _ i j hi0 hij hj0
    omega
  · intro hmany
    have htodo : Todo (num : ℤ) [(0, (num : ℤ) - 1)] := by
      refine ⟨?_, List.pairwise_singleton _ _, ?_, trivial⟩
      · intro seg hmem
        obtain rfl := List.mem_singleton.1 hmem
        dsimp only
        omega
      · dsimp only [List.length_nil]
        omega
    refine (@ends_loop _ _ _ le _ _ _ (by exact_mod_cast hnum) _ ?_ htodo).mono ?_
    · simp only [weight, List.map_cons, List.map_nil, List.sum_cons, List.sum_nil]
      omega
    · rintro t ⟨hmoves, hsorted⟩
      exact ⟨hmoves, fun ho => hsorted ho (SortedBut.whole _ _ _ _)⟩

/-- **With any comparison function the call returns**: it touches nothing but the elements, the
saved segments fit on the stack, and the elements are moved among themselves. -/
theorem qsort_s_moves {γ α : Type} (comp : γ → α → α → ℤ × γ) (num : ℕ) (hnum : num < 2 ^ 64)
    (s : State γ α) :
    ∃ t, qsort_s comp num s = .ok t ∧ Moves 0 ((num : ℤ) - 1) s.mem t.mem := by
  have hends := @ends_qsort_s _ _ comp (fun _ _ => True) s num hnum
  cases hcall : qsort_s comp num s with
  | ok t =>
    rw [hcall] at hends
    exact ⟨t, rfl, hends.1⟩
  | error e =>
    rw [hcall] at hends
    exact hends.elim

/-- A hundred elements, which are partitioned, and a comparison function that always answers that
the first one is greater. -/
theorem qsort_s_moves_hundred : 100 < 2 ^ 64 ∧
    ∃ t, qsort_s (fun (n : ℕ) _ _ => (1, n + 1)) 100 ⟨fun p : ℤ => p, 0⟩ = .ok t ∧
      Moves 0 ((100 : ℕ) - 1 : ℤ) (fun p : ℤ => p) t.mem :=
  ⟨by norm_num, qsort_s_moves _ 100 (by norm_num) _⟩

/-- **With a comparison function that orders the elements they are sorted.** -/
theorem qsort_s_sorts {γ α : Type} {comp : γ → α → α → ℤ × γ} {le : α → α → Prop}
    (ho : Orders le comp) (num : ℕ) (hnum : num < 2 ^ 64) (s : State γ α) :
    ∃ t, qsort_s comp num s = .ok t ∧ Moves 0 ((num : ℤ) - 1) s.mem t.mem ∧
      ∀ i j : ℤ, 0 ≤ i → i < j → j < num → le (t.mem i) (t.mem j) := by
  have hends := @ends_qsort_s _ _ comp le s num hnum
  cases hcall : qsort_s comp num s with
  | ok t =>
    rw [hcall] at hends
    refine ⟨t, rfl, hends.1, ?_⟩
    intro i j hi hij hj
    exact (hends.2 ho).sorted hi hij (by omega)
  | error e =>
    rw [hcall] at hends
    exact hends.elim

theorem orders_sub : Orders (· ≤ ·) fun (n : ℕ) (a b : ℤ) => (a - b, n + 1) where
  positive _ _ _ := by dsimp only; omega
  zero _ _ _ h := by dsimp only at h; omega
  total := le_total
  trans _ _ _ := le_trans

/-- Twenty elements in the wrong order; the context counts the comparisons. -/
theorem qsort_s_sorts_twenty : Orders (· ≤ ·) (fun (n : ℕ) (a b : ℤ) => (a - b, n + 1)) ∧
    20 < 2 ^ 64 ∧ ∃ t, qsort_s (fun (n : ℕ) (a b : ℤ) => (a - b, n + 1)) 20 ⟨fun p => -p, 0⟩ =
      .ok t ∧ Moves 0 ((20 : ℕ) - 1 : ℤ) (fun p => -p) t.mem ∧
      ∀ i j : ℤ, 0 ≤ i → i < j → j < (20 : ℕ) → t.mem i ≤ t.mem j :=
  ⟨orders_sub, by norm_num, qsort_s_sorts orders_sub 20 (by norm_num) _⟩

end Proofs

end Qsort

end Swinx
