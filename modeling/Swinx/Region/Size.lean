import Swinx.Data.Yields
import Swinx.Region.Basic
import Mathlib.Tactic.GCongr
import Mathlib.Tactic.Ring

/-!
# The size of a result

A callback adds at most one rectangle for each rectangle of its bands, a pass of the loop of
`REGION_RegionOp` calls at most two of them, and each pass ends a band.  So the number of rectangles
of a new region, and of every number computed from it on the way, is bounded by those of the
sources.

* `Callbacks.Grow` — what the callbacks add.
* `opRegion_size` — one sweep.
* `operation_size` — the operations of `CombineRgn`.
-/

namespace Swinx

namespace Region

open Function (update update_of_ne update_self)

/-! ### Growth -/

/-- Where a number overflows, it is computed from at most `k` rectangles. -/
def Within (k : ℕ) (e : Fail) : Prop := ∀ n, e = .overflow n → n ≤ k

theorem Within.mono {k k' : ℕ} {e : Fail} (h : Within k e) (hk : k ≤ k') : Within k' e :=
  fun n hn => (h n hn).trans hk

theorem within_refused (k : ℕ) : Within k .refused := fun _ h => nomatch h

/-- **At most `k` rectangles are added.** -/
def Grows (k : ℕ) (reg : WINEREGION) (x : Except Fail WINEREGION) : Prop :=
  Yields (fun reg' => reg'.numRects ≤ reg.numRects + k) (Within (reg.numRects + k)) x

namespace Grows

variable {k k' : ℕ} {reg : WINEREGION}

theorem refl (k : ℕ) (reg : WINEREGION) : Grows k reg (.ok reg) :=
  Yields.ok (Nat.le_add_right _ _)

theorem mono {x : Except Fail WINEREGION} (h : Grows k reg x) (hk : k ≤ k') : Grows k' reg x :=
  Yields.imp h (fun _ h => h.trans (by omega)) fun _ h => h.mono (by omega)

theorem bind {x : Except Fail WINEREGION} {f : WINEREGION → Except Fail WINEREGION}
    (h : Grows k reg x) (hf : ∀ reg', Grows k' reg' (f reg')) : Grows (k + k') reg (x.bind f) := by
  refine Yields.bind (Yields.imp h (fun _ h => h) fun _ h => h.mono (by omega)) fun reg' hreg' => ?_
  exact Yields.imp (hf reg') (fun _ h => h.trans (by omega)) fun _ h => h.mono (by omega)

end Grows

/-! ### The callbacks -/

theorem grows_addRect (reg : WINEREGION) (left top right bottom : ℤ) :
    Grows 1 reg (addRect reg left top right bottom) := by
  unfold addRect
  split_ifs with hfull hmax
  · refine Yields.ok (le_of_eq ?_)
    simp [WINEREGION.append, WINEREGION.numRects, growRegion_rects]
  · refine Yields.error fun n hn => ?_
    cases hn
    exact hfull.le.trans (Nat.le_add_right _ _)
  · refine Yields.ok (le_of_eq ?_)
    simp [WINEREGION.append, WINEREGION.numRects]

theorem grows_addRects (reg : WINEREGION) (r : List RECT) (top bottom : ℤ) :
    Grows r.length reg (addRects reg r top bottom) := by
  induction r generalizing reg with
  | nil => exact Grows.refl _ _
  | cons a r ih =>
    rw [addRects]
    exact ((grows_addRect reg _ _ _ _).bind fun reg' => ih reg').mono
      (by rw [List.length_cons, Nat.add_comm])

theorem grows_intersectO (reg : WINEREGION) (r1 r2 : List RECT) (top bottom : ℤ) :
    Grows (r1.length + r2.length) reg (intersectO reg r1 r2 top bottom) := by
  induction reg, r1, r2, top, bottom using intersectO.induct with
  | case1 reg a r1 b r2 top bottom ih₁ ih₂ ih₃ =>
    have hadded : Grows 1 reg (if max a.left b.left < min a.right b.right then
        addRect reg (max a.left b.left) top (min a.right b.right) bottom else .ok reg) :=
      Yields.ite (fun _ => grows_addRect _ _ _ _ _) fun _ => Grows.refl _ _
    have hnext : ∀ reg', Grows (r1.length + r2.length + 1) reg'
        (if a.right < b.right then intersectO reg' r1 (b :: r2) top bottom
        else if b.right < a.right then intersectO reg' (a :: r1) r2 top bottom
        else intersectO reg' r1 r2 top bottom) := fun reg' => by
      refine Yields.ite (fun _ => ?_) fun _ => Yields.ite (fun _ => ?_) fun _ => ?_
      · exact (ih₁ reg').mono (by rw [List.length_cons, Nat.add_assoc])
      · exact (ih₂ reg').mono (by rw [List.length_cons]; omega)
      · exact (ih₃ reg').mono (Nat.le_succ _)
    rw [intersectO]
    exact (hadded.bind hnext).mono (by simp only [List.length_cons]; omega)
  | case2 reg r1 r2 top bottom hne =>
    rw [intersectO]
    · exact Grows.refl _ _
    · exact hne

theorem grows_mergeRect (reg : WINEREGION) (r : RECT) (top bottom : ℤ) :
    Grows 1 reg (mergeRect reg r top bottom) := by
  unfold mergeRect
  split
  · refine Yields.ite (fun _ => Yields.ite (fun _ => Yields.ok ?_) fun _ => Grows.refl _ _)
      fun _ => grows_addRect _ _ _ _ _
    exact (length_widenLast _ _).le.trans (Nat.le_add_right _ _)
  · exact grows_addRect _ _ _ _ _

theorem grows_unionO (reg : WINEREGION) (r1 r2 : List RECT) (top bottom : ℤ) :
    Grows (r1.length + r2.length) reg (unionO reg r1 r2 top bottom) := by
  induction reg, r1, r2, top, bottom using unionO.induct with
  | case1 reg top bottom a r1 b r2 hlt ih =>
    rw [unionO, if_pos hlt]
    exact ((grows_mergeRect _ _ _ _).bind ih).mono (by simp only [List.length_cons]; omega)
  | case2 reg top bottom a r1 b r2 hlt ih =>
    rw [unionO, if_neg hlt]
    exact ((grows_mergeRect _ _ _ _).bind ih).mono (by simp only [List.length_cons]; omega)
  | case3 reg top bottom a r1 ih =>
    rw [unionO]
    exact ((grows_mergeRect _ _ _ _).bind ih).mono (by simp only [List.length_cons]; omega)
  | case4 reg top bottom b r2 ih =>
    rw [unionO]
    exact ((grows_mergeRect _ _ _ _).bind ih).mono (by simp only [List.length_cons]; omega)
  | case5 reg top bottom =>
    rw [unionO]
    exact Grows.refl _ _

theorem grows_subtractFrom (top bottom : ℤ) (reg : WINEREGION) (left : ℤ) (r1 r2 : List RECT) :
    Grows (r1.length + r2.length) reg (subtractFrom top bottom reg left r1 r2) := by
  induction reg, left, r1, r2 using subtractFrom.induct top bottom with
  | case1 reg left a r1 b r2 h ih =>
    rw [subtractFrom, if_pos h]
    exact ih.mono (by simp only [List.length_cons]; omega)
  | case2 reg left a r1 b r2 h h' hr ih =>
    rw [subtractFrom, if_neg h, if_pos h', if_pos hr]
    exact ih.mono (by simp only [List.length_cons]; omega)
  | case3 reg left a r1 b r2 h h' hr ih =>
    rw [subtractFrom, if_neg h, if_pos h', if_neg hr]
    exact ih.mono (by simp only [List.length_cons]; omega)
  | case4 reg left a r1 b r2 h h' hlt ih₁ ih₂ =>
    rw [subtractFrom, if_neg h, if_neg h', if_pos hlt]
    refine ((grows_addRect _ _ _ _ _).bind fun reg' =>
      (?_ : Grows (r1.length + r2.length + 1) reg' _)).mono (by simp only [List.length_cons]; omega)
    refine Yields.ite (fun _ => ?_) fun _ => ?_
    · exact (ih₁ reg').mono (by rw [List.length_cons, Nat.add_assoc])
    · exact (ih₂ reg').mono (by rw [List.length_cons]; omega)
  | case5 reg left a r1 b r2 h h' hlt ih =>
    have hadded : Grows 1 reg (if a.right > left then addRect reg left top a.right bottom
        else .ok reg) :=
      Yields.ite (fun _ => grows_addRect _ _ _ _ _) fun _ => Grows.refl _ _
    rw [subtractFrom, if_neg h, if_neg h', if_neg hlt]
    exact (hadded.bind ih).mono (by simp only [List.length_cons]; omega)
  | case6 reg left a r1 ih =>
    rw [subtractFrom]
    exact ((grows_addRect _ _ _ _ _).bind ih).mono (by simp only [List.length_cons]; omega)
  | case7 reg left r2 =>
    rw [subtractFrom]
    exact Grows.refl _ _

/-- **What the callbacks add**: at most a rectangle for each one of their bands. -/
structure Callbacks.Grow (ops : Callbacks) : Prop where
  /-- A band of each region. -/
  overlap : ∀ reg r1 r2 top bottom,
    Grows (r1.length + r2.length) reg (ops.overlapFunc reg r1 r2 top bottom)
  /-- A band of the first region. -/
  nonOverlap1 : ∀ f, ops.nonOverlap1Func = some f → ∀ reg r top bottom,
    Grows r.length reg (f reg r top bottom)
  /-- A band of the second region. -/
  nonOverlap2 : ∀ f, ops.nonOverlap2Func = some f → ∀ reg r top bottom,
    Grows r.length reg (f reg r top bottom)

/-- What `addRects` adds, if it is the callback. -/
theorem grows_of_addRects {f : NonOverlapFunc} (h : some addRects = some f) (reg : WINEREGION)
    (r : List RECT) (top bottom : ℤ) : Grows r.length reg (f reg r top bottom) := by
  obtain rfl := Option.some.inj h
  exact grows_addRects reg r top bottom

theorem intersect_grow : Callbacks.Grow ⟨intersectO, none, none⟩ where
  overlap := grows_intersectO
  nonOverlap1 := fun _ h => nomatch h
  nonOverlap2 := fun _ h => nomatch h

theorem union_grow : Callbacks.Grow ⟨unionO, some unionNonO, some unionNonO⟩ where
  overlap := grows_unionO
  nonOverlap1 := fun _ h => grows_of_addRects h
  nonOverlap2 := fun _ h => grows_of_addRects h

theorem subtract_grow : Callbacks.Grow ⟨subtractO, some subtractNonO1, none⟩ where
  overlap := fun reg r1 r2 top bottom => grows_subtractFrom top bottom reg _ r1 r2
  nonOverlap1 := fun _ h => grows_of_addRects h
  nonOverlap2 := fun _ h => nomatch h

theorem length_topBand_le (r : List RECT) : (topBand r).length ≤ r.length := by
  conv_rhs => rw [← topBand_append_afterBand r]
  rw [List.length_append]
  exact Nat.le_add_right _ _

theorem grows_callNonOverlap {f : Option NonOverlapFunc}
    (hf : ∀ g, f = some g → ∀ reg r top bottom, Grows r.length reg (g reg r top bottom))
    (reg : WINEREGION) (r : List RECT) (top bot : ℤ) :
    Grows r.length reg (callNonOverlap f reg r top bot) := by
  cases f with
  | none => exact Grows.refl _ _
  | some g => exact Yields.ite (fun _ => hf g rfl reg r top bot) fun _ => Grows.refl _ _

theorem numRects_coalesceAdded_le (reg : WINEREGION) (prevBand curBand : ℕ) :
    (coalesceAdded reg prevBand curBand).1.numRects ≤ reg.numRects := by
  unfold coalesceAdded
  split_ifs with hadded
  · simp only [coalesce]
    split_ifs
    · exact length_mergedRects_le _ _ _
    · exact length_mergedRects_le _ _ _
    · exact le_refl reg.numRects
    · exact le_refl reg.numRects
  · exact le_rfl

/-- **One pass** calls at most two callbacks. -/
theorem sweepBand_size {ops : Callbacks} (hops : ops.Grow) (a b : RECT) {r1 r2 : List RECT}
    (ybot : ℤ) (reg : WINEREGION) (prevBand : ℕ) {w : ℕ} (hw : r1.length + r2.length ≤ w) :
    Yields (fun p => p.1.numRects ≤ reg.numRects + 2 * w) (Within (reg.numRects + 2 * w))
      (sweepBand ops a r1 b r2 ybot reg prevBand) := by
  have hlen₁ := length_topBand_le r1
  have hlen₂ := length_topBand_le r2
  -- the part above the overlap
  have hfirst : Grows w reg
      (if a.top < b.top then
        callNonOverlap ops.nonOverlap1Func reg (topBand r1) (max a.top ybot) (min a.bottom b.top)
      else if b.top < a.top then
        callNonOverlap ops.nonOverlap2Func reg (topBand r2) (max b.top ybot) (min b.bottom a.top)
      else .ok reg) := by
    refine Yields.ite (fun _ => ?_) fun _ => Yields.ite (fun _ => ?_) fun _ => Grows.refl _ _
    · exact (grows_callNonOverlap hops.nonOverlap1 _ _ _ _).mono (by omega)
    · exact (grows_callNonOverlap hops.nonOverlap2 _ _ _ _).mono (by omega)
  unfold sweepBand
  refine Yields.bind (Yields.imp hfirst (fun _ h => h) fun _ h => h.mono (by omega))
    fun reg₁ hreg₁ => ?_
  have hmerged := numRects_coalesceAdded_le reg₁ prevBand reg.numRects
  generalize coalesceAdded reg₁ prevBand reg.numRects = p at hmerged ⊢
  -- the overlap
  have hsecond : ∀ ytop ybot', Grows w p.1
      (if ybot' > ytop then ops.overlapFunc p.1 (topBand r1) (topBand r2) ytop ybot'
      else .ok p.1) := fun ytop ybot' => by
    refine Yields.ite (fun _ => ?_) fun _ => Grows.refl _ _
    exact (hops.overlap _ _ _ _ _).mono (by omega)
  refine Yields.bind (Yields.imp (hsecond _ _) (fun _ h => h) fun _ h => h.mono (by omega))
    fun reg₂ hreg₂ => Yields.ok ?_
  have := numRects_coalesceAdded_le reg₂ p.2 p.1.numRects
  omega

/-- A pass ends a band, and at most `k` rectangles are added in it. -/
theorem sweep_size {ops : Callbacks} (hops : ops.Grow) {k : ℕ} (r1 r2 : List RECT) (ybot : ℤ)
    (reg : WINEREGION) (prevBand : ℕ) (hk : 2 * (r1.length + r2.length) ≤ k) :
    Yields (fun s => s.newReg.numRects + k * (s.r1.length + s.r2.length) ≤
        reg.numRects + k * (r1.length + r2.length))
      (Within (reg.numRects + k * (r1.length + r2.length)))
      (sweep ops r1 r2 ybot reg prevBand) := by
  induction r1, r2, ybot, reg, prevBand using sweep.induct with
  | case1 a r1 b r2 ybot reg prevBand ih =>
    have hlt : (skipBand (min a.bottom b.bottom) a (a :: r1)).length +
        (skipBand (min a.bottom b.bottom) b (b :: r2)).length <
          (a :: r1).length + (b :: r2).length := length_skipBand_lt rfl
    have hband := sweepBand_size hops a b ybot reg prevBand (le_refl
      ((a :: r1).length + (b :: r2).length))
    generalize (a :: r1).length + (b :: r2).length = n at hk hlt hband ⊢
    generalize (skipBand (min a.bottom b.bottom) a (a :: r1)).length +
      (skipBand (min a.bottom b.bottom) b (b :: r2)).length = n' at hlt ih
    -- one pass fewer is left
    have hpass : k + k * n' ≤ k * n := by
      calc k + k * n' = k * (n' + 1) := by ring
        _ ≤ k * n := Nat.mul_le_mul_left k hlt
    rw [sweep]
    refine Yields.bind (Yields.imp hband (fun _ h => h) fun _ h => h.mono (by omega)) fun p hp => ?_
    exact Yields.imp (ih p (by omega)) (fun _ h => h.trans (by omega)) fun _ h => h.mono (by omega)
  | case2 r1 r2 ybot reg prevBand hne =>
    rw [sweep]
    · exact Yields.ok le_rfl
    · exact hne

theorem grows_drain {f : NonOverlapFunc}
    (hf : ∀ reg r top bottom, Grows r.length reg (f reg r top bottom)) (r : List RECT) (ybot : ℤ)
    (reg : WINEREGION) : Grows r.length reg (drain f r ybot reg) := by
  induction r, ybot, reg using drain.induct with
  | case1 ybot reg =>
    rw [drain]
    exact Grows.refl _ _
  | case2 ybot reg a r ih =>
    rw [drain]
    refine ((hf _ _ _ _).bind ih).mono ?_
    rw [← List.length_append, topBand_append_afterBand]

theorem grows_drainLeft {f : Option NonOverlapFunc}
    (hf : ∀ g, f = some g → ∀ reg r top bottom, Grows r.length reg (g reg r top bottom))
    (r : List RECT) (ybot : ℤ) (reg : WINEREGION) :
    Grows r.length reg (drainLeft f r ybot reg) := by
  cases f with
  | none => exact Grows.refl _ _
  | some g => exact grows_drain (hf g rfl) r ybot reg

theorem numRects_compact (reg : WINEREGION) : (compact reg).numRects = reg.numRects := by
  unfold compact
  split_ifs <;> rfl

theorem finish_size {ops : Callbacks} (hops : ops.Grow) (s : Swept) :
    Grows (s.r1.length + s.r2.length) s.newReg (finish ops s) := by
  have hdrained : Grows (s.r1.length + s.r2.length) s.newReg
      (if s.r1 ≠ [] then drainLeft ops.nonOverlap1Func s.r1 s.ybot s.newReg
      else drainLeft ops.nonOverlap2Func s.r2 s.ybot s.newReg) := by
    refine Yields.ite (fun _ => ?_) fun _ => ?_
    · exact (grows_drainLeft hops.nonOverlap1 _ _ _).mono (Nat.le_add_right _ _)
    · exact (grows_drainLeft hops.nonOverlap2 _ _ _).mono (Nat.le_add_left _ _)
  refine Yields.bind hdrained fun reg hreg => Yields.ok ?_
  rw [numRects_compact]
  exact (numRects_coalesceAdded_le _ _ _).trans hreg

/-- What one sweep of `n` rectangles computes with. -/
def sweepSize (n : ℕ) : ℕ := 2 * n ^ 2

theorem le_sweepSize (n : ℕ) : n ≤ sweepSize n := by
  have := Nat.le_self_pow two_ne_zero n
  unfold sweepSize
  omega

theorem sweepSize_mono {n k : ℕ} (h : n ≤ k) : sweepSize n ≤ sweepSize k := by
  unfold sweepSize
  gcongr

/-- **One sweep.** -/
theorem opRegion_size {ops : Callbacks} (hops : ops.Grow) (reg1 reg2 : WINEREGION) :
    Yields (fun reg => reg.numRects ≤ sweepSize (reg1.numRects + reg2.numRects))
      (Within (sweepSize (reg1.numRects + reg2.numRects))) (opRegion ops reg1 reg2) := by
  have hle := le_sweepSize (reg1.numRects + reg2.numRects)
  generalize hw : reg1.numRects + reg2.numRects = w at hle ⊢
  have hsq : max (2 * w) 1 * w = sweepSize w := by
    unfold sweepSize
    rcases Nat.eq_zero_or_pos w with rfl | hpos
    · rfl
    · rw [max_eq_left (by omega)]
      ring
  have htwice : Yields (fun _ => True) (Within (sweepSize w))
      (twice (max reg1.numRects reg2.numRects)) := by
    refine Yields.ite (fun _ => Yields.ok trivial) fun _ => Yields.error fun n hn => ?_
    cases hn
    omega
  have hinit : ∀ n, Yields (fun reg => reg.numRects = 0) (Within (sweepSize w)) (initRegion n) :=
    fun n => Yields.ite (fun _ => Yields.error (within_refused _)) fun _ => Yields.ok rfl
  unfold opRegion
  refine Yields.bind htwice fun n _ => Yields.bind (hinit n) fun reg hreg => ?_
  have hsweep := sweep_size hops (k := max (2 * w) 1) reg1.rects reg2.rects
    (if reg1.extents.top < reg2.extents.top then reg1.extents.top else reg2.extents.top) reg 0
    (by rw [show reg1.rects.length + reg2.rects.length = w from hw]; exact le_max_left _ _)
  rw [hreg, Nat.zero_add, show reg1.rects.length + reg2.rects.length = w from hw, hsq] at hsweep
  refine Yields.bind hsweep fun s hs => ?_
  -- each rectangle that is left is added once more
  have hleft : s.newReg.numRects + (s.r1.length + s.r2.length) ≤ sweepSize w :=
    (Nat.add_le_add_left (Nat.le_mul_of_pos_left _ (by omega)) _).trans hs
  exact Yields.imp (finish_size hops s) (fun _ h => h.trans hleft) fun _ h => h.mono hleft

section Operations

variable {ρ : Type*} [DecidableEq ρ] (m : Mem ρ) (dest reg1 reg2 : Ptr ρ)

theorem regionOp_size {ops : Callbacks} (hops : ops.Grow) :
    Yields (fun m' => (m' dest).numRects ≤ sweepSize ((m reg1).numRects + (m reg2).numRects) ∧
        ∀ p, p ≠ dest → m' p = m p)
      (Within (sweepSize ((m reg1).numRects + (m reg2).numRects)))
      (regionOp ops m dest reg1 reg2) := by
  refine (opRegion_size hops (m reg1) (m reg2)).map fun newReg hnew =>
    ⟨?_, fun p hp => update_of_ne hp _ _⟩
  rw [update_self]
  exact hnew

theorem intersectRegion_size :
    Yields (fun _ => True) (Within (sweepSize ((m reg1).numRects + (m reg2).numRects)))
      (intersectRegion m dest reg1 reg2) := by
  refine Yields.map (P := fun _ => True) ?_ fun _ _ => trivial
  exact Yields.ite (fun _ => Yields.ok trivial) fun _ =>
    (regionOp_size m dest reg1 reg2 intersect_grow).mono fun _ _ => trivial

theorem unionRegion_size :
    Yields (fun _ => True) (Within (sweepSize ((m reg1).numRects + (m reg2).numRects)))
      (unionRegion m dest reg1 reg2) := by
  refine Yields.ite (fun _ => Yields.ok trivial) fun _ => Yields.ite (fun _ => Yields.ok trivial)
    fun _ => Yields.ite (fun _ => Yields.ok trivial) fun _ =>
      Yields.ite (fun _ => Yields.ok trivial) fun _ => ?_
  exact (regionOp_size m dest reg1 reg2 union_grow).map fun _ _ => trivial

theorem numRects_setExtents (reg : WINEREGION) : (setExtents reg).numRects = reg.numRects := by
  unfold setExtents
  split <;> rfl

theorem subtractRegion_size :
    Yields (fun m' => (m' dest).numRects ≤ sweepSize ((m reg1).numRects + (m reg2).numRects) ∧
        ∀ p, p ≠ dest → m' p = m p)
      (Within (sweepSize ((m reg1).numRects + (m reg2).numRects)))
      (subtractRegion m dest reg1 reg2) := by
  refine Yields.ite (fun _ => Yields.ok ⟨?_, fun p hp => ?_⟩) fun _ => ?_
  · -- the minuend is copied
    have hle := (Nat.le_add_right _ _).trans (le_sweepSize ((m reg1).numRects + (m reg2).numRects))
    unfold copyRegion
    split_ifs with h
    · exact h ▸ hle
    · rw [update_self]
      exact hle
  · unfold copyRegion
    split_ifs
    · rfl
    · exact update_of_ne hp _ _
  · refine (regionOp_size m dest reg1 reg2 subtract_grow).map fun m' hm' =>
      ⟨?_, fun p hp => ?_⟩
    · rw [update_self, numRects_setExtents]
      exact hm'.1
    · rw [update_of_ne hp, hm'.2 p hp]

/-- The new arrays of `REGION_XorRegion`. -/
theorem initSucc_size (n : ℕ) :
    Yields (fun _ => True) (Within n) ((succ n).bind initRegion) := by
  have hsucc : Yields (fun _ => True) (Within n) (succ n) :=
    Yields.ite (fun _ => Yields.ok trivial) fun _ => Yields.error fun k hk => by
      cases hk
      exact le_rfl
  exact hsucc.bind fun k _ =>
    Yields.ite (fun _ => Yields.error (within_refused _)) fun _ => Yields.ok trivial

/-- **`REGION_XorRegion`** sweeps the sources twice, and then the differences. -/
theorem xorRegion_size (dr sra srb : ρ) :
    Yields (fun _ => True)
      (Within (sweepSize (2 * sweepSize ((m (.obj sra)).numRects + (m (.obj srb)).numRects))))
      (xorRegion m (.obj dr) (.obj sra) (.obj srb)) := by
  generalize ha : (m (.obj sra)).numRects = a
  generalize hb : (m (.obj srb)).numRects = b
  have hle := le_sweepSize (a + b)
  have hle' := le_sweepSize (2 * sweepSize (a + b))
  unfold xorRegion
  rw [ha, hb]
  refine ((initSucc_size a).imp (fun _ h => h) fun _ h => h.mono (by omega)).bind fun tra _ => ?_
  refine ((initSucc_size b).imp (fun _ h => h) fun _ h => h.mono (by omega)).bind fun trb _ => ?_
  -- the sources are objects, and so not the local regions
  have hm₀ : ∀ o : ρ, update (update m .tra tra) .trb trb (.obj o) = m (.obj o) :=
    fun o => by simp
  generalize update (update m .tra tra) .trb trb = m₀ at hm₀ ⊢
  have hsub := subtractRegion_size m₀ .tra (.obj sra) (.obj srb)
  rw [hm₀, hm₀, ha, hb] at hsub
  refine (hsub.imp (fun _ h => h) fun _ h => h.mono (by omega)).bind fun m₁ hm₁ => ?_
  have hsub' := subtractRegion_size m₁ .trb (.obj srb) (.obj sra)
  rw [hm₁.2 _ (by simp), hm₁.2 _ (by simp), hm₀, hm₀, ha, hb, Nat.add_comm b a] at hsub'
  refine (hsub'.imp (fun _ h => h) fun _ h => h.mono (by omega)).bind fun m₂ hm₂ => ?_
  refine (unionRegion_size m₂ (.obj dr) .tra .trb).imp (fun _ h => h) fun _ h =>
    h.mono (sweepSize_mono ?_)
  have htra := hm₁.1
  rw [← hm₂.2 .tra (by simp)] at htra
  have htrb := hm₂.1
  omega

end Operations

end Region

end Swinx
