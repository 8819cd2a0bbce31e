import Swinx.Region.Size
import Swinx.Region.Sweep

/-!
# `CombineRgn`

A well-formed region has the rectangles of bands in canonical form and the least bounding box.  The
operations keep that, for every choice of the destination, and the points of the result are those
of the operation.

* `setExtents_wellFormed` — `REGION_SetExtents` finds the bounding box.
* `intersectRegion_spec`, `unionRegion_spec`, `subtractRegion_spec`, `xorRegion_spec`.
* `combineRgn_spec` — `CombineRgn`.
-/

namespace Swinx

namespace Region

open Function (update update_of_ne update_self)

open Bands

/-! ### Well-formed regions -/

/-- The point is in a rectangle of the region. -/
def WINEREGION.Covers (rgn : WINEREGION) (x y : ℤ) : Prop :=
  ∃ r ∈ rgn.rects, (r.left ≤ x ∧ x < r.right) ∧ r.top ≤ y ∧ y < r.bottom

/-- The rectangles are those of bands in canonical form. -/
def Canonical (rects : List RECT) : Prop := ∃ D, Banded D ∧ rects = rectsOf D

/-- **A well-formed region.** -/
structure WINEREGION.WellFormed (rgn : WINEREGION) : Prop where
  canonical : Canonical rgn.rects
  extents_empty : rgn.rects = [] → rgn.extents = ⟨0, 0, 0, 0⟩
  bounds : rgn.rects ≠ [] → Bounds rgn.Covers rgn.extents.left rgn.extents.top rgn.extents.right
    rgn.extents.bottom

theorem covers_iff {rgn : WINEREGION} {D : List (Band ℤ)} (h : rgn.rects = rectsOf D) {x y : ℤ} :
    rgn.Covers x y ↔ CoversIn D x y := by
  unfold WINEREGION.Covers CoversIn
  rw [h]
  constructor
  · rintro ⟨r, hr, hx, hy⟩
    obtain ⟨b, hb, hr⟩ := mem_rectsOf.1 hr
    obtain ⟨s, hs, rfl⟩ := List.mem_map.1 hr
    exact ⟨b, hb, hy.1, hy.2, s, hs, hx⟩
  · rintro ⟨b, hb, htop, hbot, s, hs, hx⟩
    exact ⟨toRect b.top b.bottom s, mem_rectsOf.2 ⟨b, hb, List.mem_map_of_mem hs⟩, hx, htop, hbot⟩

theorem not_covers_of_rects {rgn : WINEREGION} (h : rgn.rects = []) (x y : ℤ) :
    ¬ rgn.Covers x y := by
  rintro ⟨r, hr, -⟩
  rw [h] at hr
  cases hr

theorem Canonical.lt {rects : List RECT} (h : Canonical rects) {r : RECT} (hr : r ∈ rects) :
    r.left < r.right ∧ r.top < r.bottom := by
  obtain ⟨D, -, rfl⟩ := h
  obtain ⟨b, -, hr⟩ := mem_rectsOf.1 hr
  obtain ⟨s, hs, rfl⟩ := List.mem_map.1 hr
  exact ⟨b.separated.lt s hs, b.top_lt⟩

theorem exists_bands {rgn : WINEREGION} (h : Canonical rgn.rects) (hne : rgn.rects ≠ []) :
    ∃ b B, Banded (b :: B) ∧ rgn.rects = rectsOf (b :: B) := by
  obtain ⟨D, hD, hrects⟩ := h
  cases D with
  | nil => exact absurd hrects hne
  | cons b B => exact ⟨b, B, hD, hrects⟩

theorem exists_covers {rgn : WINEREGION} (h : Canonical rgn.rects) (hne : rgn.rects ≠ []) :
    ∃ x y, rgn.Covers x y := by
  obtain ⟨b, B, -, hrects⟩ := exists_bands h hne
  obtain ⟨x, hx⟩ := b.exists_covers
  exact ⟨x, b.top, (covers_iff hrects).2 (coversIn_cons.2 (.inl hx))⟩

theorem extents_top {rgn : WINEREGION} (h : rgn.WellFormed) {b : Band ℤ} {B : List (Band ℤ)}
    (hB : Banded (b :: B)) (hrects : rgn.rects = rectsOf (b :: B)) : rgn.extents.top = b.top := by
  have hne : rgn.rects ≠ [] := by
    rw [hrects]
    exact fun h => List.cons_ne_nil b B (rectsOf_eq_nil_iff.1 h)
  refine (h.bounds hne).top.unique ⟨?_, ?_⟩
  · obtain ⟨x, hx⟩ := b.exists_covers
    exact ⟨x, (covers_iff hrects).2 (coversIn_cons.2 (.inl hx))⟩
  · rintro y ⟨x, hxy⟩
    exact hB.top_le_of_coversIn ((covers_iff hrects).1 hxy)

/-! ### `REGION_SetExtents` -/

theorem foldl_sides (l : List RECT) (e : ℤ × ℤ) :
    let e' := l.foldl (fun e r => (min r.left e.1, max r.right e.2)) e
    ((e'.1 ≤ e.1 ∧ ∀ r ∈ l, e'.1 ≤ r.left) ∧ (e'.1 = e.1 ∨ ∃ r ∈ l, r.left = e'.1)) ∧
      (e.2 ≤ e'.2 ∧ ∀ r ∈ l, r.right ≤ e'.2) ∧ (e'.2 = e.2 ∨ ∃ r ∈ l, r.right = e'.2) := by
  induction l generalizing e with
  | nil => simp
  | cons a l ih =>
    obtain ⟨⟨⟨hle, hall⟩, hmin⟩, ⟨hge, hall'⟩, hmax⟩ := ih (min a.left e.1, max a.right e.2)
    simp only [List.foldl_cons, List.forall_mem_cons, List.exists_mem_cons_iff]
    refine ⟨⟨⟨hle.trans (min_le_right _ _), hle.trans (min_le_left _ _), hall⟩, ?_⟩,
      ⟨(le_max_right _ _).trans hge, (le_max_left _ _).trans hge, hall'⟩, ?_⟩
    · rcases hmin with h | h
      · rcases min_choice a.left e.1 with hc | hc
        · exact .inr (.inl (by rw [h]; exact hc.symm))
        · exact .inl (by rw [h]; exact hc)
      · exact .inr (.inr h)
    · rcases hmax with h | h
      · rcases max_choice a.right e.2 with hc | hc
        · exact .inr (.inl (by rw [h]; exact hc.symm))
        · exact .inl (by rw [h]; exact hc)
      · exact .inr (.inr h)

theorem setExtents_rects (reg : WINEREGION) : (setExtents reg).rects = reg.rects := by
  unfold setExtents
  split <;> rfl

theorem setExtents_covers (reg : WINEREGION) (x y : ℤ) :
    (setExtents reg).Covers x y ↔ reg.Covers x y := by
  unfold WINEREGION.Covers
  rw [setExtents_rects]

/-- **`REGION_SetExtents` finds the bounding box.** -/
theorem setExtents_wellFormed {reg : WINEREGION} (h : Canonical reg.rects) :
    (setExtents reg).WellFormed where
  canonical := by rwa [setExtents_rects]
  extents_empty := fun hnil => by
    rw [setExtents_rects] at hnil
    simp [setExtents, hnil]
  bounds := fun hne => by
    rw [setExtents_rects] at hne
    obtain ⟨b, B, hB, hrects⟩ := exists_bands h hne
    obtain ⟨D, d, hD⟩ := (List.eq_nil_or_concat' (b :: B)).resolve_left (List.cons_ne_nil _ _)
    obtain ⟨first, hfirst⟩ := Option.isSome_iff_exists.1 (List.isSome_head?.2 hne)
    obtain ⟨last, hlast⟩ := Option.isSome_iff_exists.1 (List.getLast?_isSome.2 hne)
    have hfirstMem := List.mem_of_mem_head? hfirst
    have hlastMem := List.mem_of_getLast? hlast
    -- the points of a rectangle
    have hcov : ∀ r ∈ reg.rects, reg.Covers r.left r.top ∧
        reg.Covers (r.right - 1) r.top ∧ reg.Covers r.left (r.bottom - 1) := fun r hr => by
      obtain ⟨hx, hy⟩ := h.lt hr
      exact ⟨⟨r, hr, by omega, by omega⟩, ⟨r, hr, by omega, by omega⟩, r, hr, by omega, by omega⟩
    have htop : first.top = b.top := by
      obtain ⟨a, r, har, hatop, -⟩ := exists_head b B
      rw [hrects, har] at hfirst
      rw [← Option.some.inj hfirst]
      exact hatop
    have hbot : last.bottom = d.bottom := by
      rw [hrects, hD, rectsOf_append, rectsOf_cons, rectsOf_nil, List.append_nil,
        List.getLast?_append_of_ne_nil _ (bandRects_ne_nil d)] at hlast
      exact (of_mem_bandRects (List.mem_of_getLast? hlast)).2
    have hext : (setExtents reg).extents =
        ⟨(reg.rects.foldl (fun e r => (min r.left e.1, max r.right e.2))
          (first.left, last.right)).1, first.top,
        (reg.rects.foldl (fun e r => (min r.left e.1, max r.right e.2))
          (first.left, last.right)).2, last.bottom⟩ := by
      simp [setExtents, hfirst, hlast]
    obtain ⟨⟨⟨-, hleft⟩, hmin⟩, ⟨-, hright⟩, hmax⟩ :=
      foldl_sides reg.rects (first.left, last.right)
    rw [hext]
    generalize reg.rects.foldl (fun e r => (min r.left e.1, max r.right e.2))
      (first.left, last.right) = e at hleft hmin hright hmax ⊢
    refine Bounds.congr ?_ fun x y => (setExtents_covers reg x y).symm
    refine ⟨⟨?_, ?_⟩, ⟨⟨first.left, (hcov first hfirstMem).1⟩, ?_⟩, ⟨?_, ?_⟩, ?_, ?_⟩
    · rcases hmin with hmin | ⟨r, hr, hmin⟩
      · exact ⟨first.top, hmin ▸ (hcov first hfirstMem).1⟩
      · exact ⟨r.top, hmin ▸ (hcov r hr).1⟩
    · rintro x ⟨y, r, hr, hx, -⟩
      exact (hleft r hr).trans hx.1
    · rintro y ⟨x, hxy⟩
      rw [htop]
      exact hB.top_le_of_coversIn ((covers_iff hrects).1 hxy)
    · rintro x y ⟨r, hr, hx, -⟩
      exact hx.2.trans_le (hright r hr)
    · intro e' he
      show e.2 ≤ e'
      rcases hmax with hmax | ⟨r, hr, hmax⟩
      · have := he _ _ (hcov last hlastMem).2.1
        omega
      · have := he _ _ (hcov r hr).2.1
        omega
    · intro x y hxy
      have hxy' := (covers_iff hrects).1 hxy
      rw [hD] at hxy' hB
      rw [hbot]
      exact hB.lt_bottom_of_coversIn hxy'
    · intro e' he
      show last.bottom ≤ e'
      have := he _ _ (hcov last hlastMem).2.2
      omega

variable {ρ η : Type*} [DecidableEq ρ]

/-- Two regions whose bounding boxes do not overlap have no point in common. -/
theorem not_covers_of_not_overlapping {reg1 reg2 : WINEREGION} (h1 : reg1.WellFormed)
    (h2 : reg2.WellFormed) (h : overlapping reg1.extents reg2.extents = false) {x y : ℤ}
    (hc₁ : reg1.Covers x y) : ¬ reg2.Covers x y := by
  intro hc₂
  have hne₁ : reg1.rects ≠ [] := fun hnil => not_covers_of_rects hnil x y hc₁
  have hne₂ : reg2.rects ≠ [] := fun hnil => not_covers_of_rects hnil x y hc₂
  have hb₁ := (h1.bounds hne₁).mem hc₁
  have hb₂ := (h2.bounds hne₂).mem hc₂
  have : overlapping reg1.extents reg2.extents = true := by
    simp only [overlapping, Bool.and_eq_true, decide_eq_true_eq]
    omega
  rw [h] at this
  cases this

/-- **What an operation leaves**: the destination with the points `P`, and the rest as it was. -/
structure Leaves (m : Mem ρ) (dest : Ptr ρ) (P : ℤ → ℤ → Prop) (m' : Mem ρ) : Prop where
  wellFormed : (m' dest).WellFormed
  points : ∀ x y, (m' dest).Covers x y ↔ P x y
  frame : ∀ p, p ≠ dest → m' p = m p

omit [DecidableEq ρ] in
theorem Leaves.congr {m m' : Mem ρ} {dest : Ptr ρ} {P Q : ℤ → ℤ → Prop} (h : Leaves m dest P m')
    (hPQ : ∀ x y, P x y ↔ Q x y) : Leaves m dest Q m' :=
  ⟨h.wellFormed, fun x y => (h.points x y).trans (hPQ x y), h.frame⟩

/-- How an operation fails: a number overflows, or an array that is `TooLarge` is refused. -/
def FailsOnly (TooLarge : Prop) (e : Fail) : Prop := Overflows e ∨ e = .refused ∧ TooLarge

/-- The array for the result of a sweep of `n` rectangles is refused. -/
def TooLarge (n : ℕ) : Prop := INT_MAX / SIZEOF_RECT < 2 * n

theorem tooLarge_max {n k : ℕ} : TooLarge (max n k) ↔ TooLarge n ∨ TooLarge k := by
  unfold TooLarge
  omega

theorem copyRegion_spec {m : Mem ρ} (dst : Ptr ρ) {src : Ptr ρ} (h : (m src).WellFormed) :
    Leaves m dst (m src).Covers (copyRegion m dst src) := by
  unfold copyRegion
  split_ifs with heq
  · subst heq
    exact ⟨h, fun _ _ => Iff.rfl, fun _ _ => rfl⟩
  · refine ⟨?_, fun x y => ?_, fun p hp => update_of_ne hp _ _⟩
    · rw [update_self]
      exact ⟨h.canonical, h.extents_empty, h.bounds⟩
    · rw [update_self]
      rfl

/-- `REGION_RegionOp` on two regions that are not empty, before the extents are set. -/
theorem regionOp_spec {op : Prop → Prop → Prop} {ops : Callbacks} (hops : ops.Spec op) {m : Mem ρ}
    (dest : Ptr ρ) {reg1 reg2 : Ptr ρ} (h1 : (m reg1).WellFormed) (h2 : (m reg2).WellFormed)
    (hne₁ : (m reg1).rects ≠ []) (hne₂ : (m reg2).rects ≠ []) :
    Yields (fun m' => Canonical (m' dest).rects ∧
        (∀ x y, (m' dest).Covers x y ↔ op ((m reg1).Covers x y) ((m reg2).Covers x y)) ∧
        (∀ p, (m' p).extents = (m p).extents) ∧ ∀ p, p ≠ dest → m' p = m p)
      (FailsOnly (TooLarge (max (m reg1).numRects (m reg2).numRects)))
      (regionOp ops m dest reg1 reg2) := by
  obtain ⟨b₁, B₁, hB₁, hrects₁⟩ := exists_bands h1.canonical hne₁
  obtain ⟨b₂, B₂, hB₂, hrects₂⟩ := exists_bands h2.canonical hne₂
  refine (opRegion_spec hops hB₁ hB₂ hrects₁ hrects₂ (extents_top h1 hB₁ hrects₁)
    (extents_top h2 hB₂ hrects₂)).map ?_
  rintro newReg ⟨F, hF, hrects, hpts⟩
  have hdest : update m dest (moveRects (m dest) newReg) dest =
      moveRects (m dest) newReg := update_self _ _ _
  refine ⟨?_, fun x y => ?_, fun p => ?_, fun p hp => update_of_ne hp _ _⟩
  · rw [hdest]
    exact ⟨F, hF, hrects⟩
  · have hmoved : (moveRects (m dest) newReg).rects = rectsOf F := hrects
    rw [hdest, covers_iff hmoved, hpts, covers_iff hrects₁, covers_iff hrects₂]
  · by_cases hp : p = dest
    · subst hp
      rw [hdest]
      rfl
    · rw [update_of_ne hp]

/-- The destination with the bounding box that `REGION_SetExtents` finds. -/
theorem leaves_setExtents {m m' : Mem ρ} {dest : Ptr ρ} {P : ℤ → ℤ → Prop}
    (hcan : Canonical (m' dest).rects) (hpts : ∀ x y, (m' dest).Covers x y ↔ P x y)
    (hframe : ∀ p, p ≠ dest → m' p = m p) :
    Leaves m dest P (update m' dest (setExtents (m' dest))) := by
  have hdest : update m' dest (setExtents (m' dest)) dest = setExtents (m' dest) :=
    update_self _ _ _
  refine ⟨?_, fun x y => ?_, fun p hp => ?_⟩
  · rw [hdest]
    exact setExtents_wellFormed hcan
  · rw [hdest, setExtents_covers, hpts]
  · rw [update_of_ne hp, hframe p hp]

theorem intersect_spec : Callbacks.Spec ⟨intersectO, none, none⟩ And where
  overlap := fun reg r1 r2 top bottom h1 h2 _ => intersectO_spec reg r1 r2 top bottom h1 h2
  nonOverlap1 := .inr ⟨rfl, fun _ h => h.2⟩
  nonOverlap2 := .inr ⟨rfl, fun _ h => h.1⟩

theorem union_spec : Callbacks.Spec ⟨unionO, some unionNonO, some unionNonO⟩ Or where
  overlap := unionO_spec
  nonOverlap1 := .inl ⟨rfl, fun _ => or_iff_left not_false⟩
  nonOverlap2 := .inl ⟨rfl, fun _ => or_iff_right not_false⟩

theorem subtract_spec :
    Callbacks.Spec ⟨subtractO, some subtractNonO1, none⟩ fun p q => p ∧ ¬ q where
  overlap := fun reg r1 r2 top bottom h1 h2 _ => subtractO_spec reg r1 r2 top bottom h1 h2
  nonOverlap1 := .inl ⟨rfl, fun _ => and_iff_left not_false⟩
  nonOverlap2 := .inr ⟨rfl, fun _ h => h.1⟩

theorem rects_ne_nil {rgn : WINEREGION} (h : rgn.numRects ≠ 0) : rgn.rects ≠ [] := fun hnil =>
  h (List.length_eq_zero_iff.2 hnil)

section Operations

variable {m : Mem ρ} {reg1 reg2 : Ptr ρ}

/-- **`REGION_IntersectRegion`** -/
theorem intersectRegion_spec (newReg : Ptr ρ) (h1 : (m reg1).WellFormed)
    (h2 : (m reg2).WellFormed) :
    Yields (Leaves m newReg fun x y => (m reg1).Covers x y ∧ (m reg2).Covers x y)
      (FailsOnly (TooLarge (max (m reg1).numRects (m reg2).numRects)))
      (intersectRegion m newReg reg1 reg2) := by
  unfold intersectRegion
  by_cases htriv : (m reg1).numRects = 0 ∨ (m reg2).numRects = 0 ∨
      overlapping (m reg1).extents (m reg2).extents = false
  · simp only [if_pos htriv]
    refine Yields.ok (leaves_setExtents ?_ (fun x y => ?_) fun p hp => update_of_ne hp _ _)
    · rw [update_self]
      exact ⟨[], Banded.nil, rfl⟩
    · rw [update_self]
      refine iff_of_false (not_covers_of_rects rfl x y) fun hc => ?_
      rcases htriv with hnil | hnil | hlap
      · exact not_covers_of_rects (List.length_eq_zero_iff.1 hnil) x y hc.1
      · exact not_covers_of_rects (List.length_eq_zero_iff.1 hnil) x y hc.2
      · exact not_covers_of_not_overlapping h1 h2 hlap hc.1 hc.2
  · simp only [if_neg htriv]
    obtain ⟨hne₁, hne₂, -⟩ := not_or.1 htriv |>.imp_right not_or.1
    refine (regionOp_spec intersect_spec newReg h1 h2 (rects_ne_nil hne₁)
      (rects_ne_nil hne₂)).map ?_
    rintro m' ⟨hcan, hpts, -, hframe⟩
    exact leaves_setExtents hcan hpts hframe

/-- **`REGION_SubtractRegion`** -/
theorem subtractRegion_spec (regD : Ptr ρ) (h1 : (m reg1).WellFormed)
    (h2 : (m reg2).WellFormed) :
    Yields (Leaves m regD fun x y => (m reg1).Covers x y ∧ ¬ (m reg2).Covers x y)
      (FailsOnly (TooLarge (max (m reg1).numRects (m reg2).numRects)))
      (subtractRegion m regD reg1 reg2) := by
  unfold subtractRegion
  refine Yields.ite (fun htriv => ?_) fun htriv => ?_
  · refine Yields.ok ((copyRegion_spec _ h1).congr fun x y => ?_)
    refine (and_iff_left_of_imp fun hc₁ hc₂ => ?_).symm
    rcases htriv with hnil | hnil | hlap
    · exact not_covers_of_rects (List.length_eq_zero_iff.1 hnil) x y hc₁
    · exact not_covers_of_rects (List.length_eq_zero_iff.1 hnil) x y hc₂
    · exact not_covers_of_not_overlapping h1 h2 hlap hc₁ hc₂
  · obtain ⟨hne₁, hne₂, -⟩ := not_or.1 htriv |>.imp_right not_or.1
    refine (regionOp_spec subtract_spec regD h1 h2 (rects_ne_nil hne₁) (rects_ne_nil hne₂)).map ?_
    rintro m' ⟨hcan, hpts, -, hframe⟩
    exact leaves_setExtents hcan hpts hframe

omit [DecidableEq ρ] in
/-- A region that is one rectangle has the points of its bounding box. -/
theorem covers_of_subsumes {rgn rgn' : WINEREGION} (h : rgn.WellFormed) (h' : rgn'.WellFormed)
    (hsub : subsumes rgn rgn') {x y : ℤ} (hc : rgn'.Covers x y) : rgn.Covers x y := by
  obtain ⟨hone, hl, ht, hr, hb⟩ := hsub
  obtain ⟨r, hr₁⟩ := List.length_eq_one_iff.1 hone
  have hne : rgn.rects ≠ [] := by simp [hr₁]
  have hne' : rgn'.rects ≠ [] := fun hnil => not_covers_of_rects hnil x y hc
  have hB := h.bounds hne
  obtain ⟨⟨hxl, hxr⟩, hyt, hyb⟩ := (h'.bounds hne').mem hc
  have hcov : ∀ u v, rgn.Covers u v ↔ (r.left ≤ u ∧ u < r.right) ∧ r.top ≤ v ∧ v < r.bottom := by
    intro u v
    simp [WINEREGION.Covers, hr₁]
  -- the sides of the box are those of the rectangle
  obtain ⟨v, hv⟩ := hB.left.1
  obtain ⟨u, hu⟩ := hB.top.1
  have hright : rgn.extents.right ≤ r.right :=
    hB.right.2 fun u v huv => ((hcov u v).1 huv).1.2
  have hbottom : rgn.extents.bottom ≤ r.bottom :=
    hB.bottom.2 fun u v huv => ((hcov u v).1 huv).2.2
  have hleft := ((hcov _ _).1 hv).1.1
  have htop := ((hcov _ _).1 hu).2.1
  rw [hcov]
  omega

/-- **`REGION_UnionRegion`** -/
theorem unionRegion_spec (newReg : Ptr ρ) (h1 : (m reg1).WellFormed)
    (h2 : (m reg2).WellFormed) :
    Yields (Leaves m newReg fun x y => (m reg1).Covers x y ∨ (m reg2).Covers x y)
      (FailsOnly (TooLarge (max (m reg1).numRects (m reg2).numRects)))
      (unionRegion m newReg reg1 reg2) := by
  unfold unionRegion
  refine Yields.ite (fun heq => ?_) fun heq => Yields.ite (fun hnil => ?_) fun hnil =>
    Yields.ite (fun hsub => ?_) fun hsub => Yields.ite (fun hsub' => ?_) fun hsub' => ?_
  · refine Yields.ok ((copyRegion_spec _ h2).congr fun x y =>
      (or_iff_right_of_imp fun hc => ?_).symm)
    rcases heq with rfl | hnil
    · exact hc
    · exact absurd hc (not_covers_of_rects (List.length_eq_zero_iff.1 hnil) x y)
  · refine Yields.ok ((copyRegion_spec _ h1).congr fun x y => (or_iff_left fun hc => ?_).symm)
    exact not_covers_of_rects (List.length_eq_zero_iff.1 hnil) x y hc
  · exact Yields.ok ((copyRegion_spec _ h1).congr fun x y =>
      (or_iff_left_of_imp fun hc => covers_of_subsumes h1 h2 hsub hc).symm)
  · exact Yields.ok ((copyRegion_spec _ h2).congr fun x y =>
      (or_iff_right_of_imp fun hc => covers_of_subsumes h2 h1 hsub' hc).symm)
  · have hne₁ := rects_ne_nil (not_or.1 heq).2
    have hne₂ := rects_ne_nil hnil
    refine (regionOp_spec union_spec newReg h1 h2 hne₁ hne₂).map ?_
    rintro m' ⟨hcan, hpts, hext, hframe⟩
    have hbounds := (h1.bounds hne₁).or (h2.bounds hne₂)
    refine ⟨?_, fun x y => ?_, fun p hp => ?_⟩
    · rw [update_self, hext, hext]
      refine ⟨hcan, fun hnil' => ?_, fun _ => hbounds.congr fun x y => (hpts x y).symm⟩
      obtain ⟨x, y, hc⟩ := exists_covers h1.canonical hne₁
      exact absurd ((hpts x y).2 (.inl hc)) (not_covers_of_rects hnil' x y)
    · rw [update_self]
      exact hpts x y
    · rw [update_of_ne hp, hframe p hp]

end Operations

/-- The difference of two regions has so many rectangles that an array for a sweep of them is
refused. -/
def LargeDifference (reg1 reg2 : WINEREGION) : Prop :=
  ∃ rgn : WINEREGION, rgn.WellFormed ∧
    (∀ x y, rgn.Covers x y ↔ reg1.Covers x y ∧ ¬ reg2.Covers x y) ∧ TooLarge rgn.numRects

/-- `init_region` makes an empty region, or refuses an array that is too long. -/
theorem initSucc_spec (n : ℕ) :
    Yields (fun _ => True) (FailsOnly (TooLarge n)) ((succ n).bind initRegion) := by
  refine Yields.bind (P := fun k => k = n + 1) ?_ ?_
  · refine Yields.ite (fun _ => Yields.ok rfl) fun hmax => Yields.error (.inl ⟨n, rfl, ?_⟩)
    unfold INT_MAX at hmax
    omega
  · rintro k rfl
    refine Yields.ite (fun hmax => Yields.error (.inr ⟨rfl, ?_⟩)) fun _ => Yields.ok trivial
    obtain ⟨-, hmax⟩ := hmax
    unfold RGN_DEFAULT_RECTS INT_MAX SIZEOF_RECT at hmax
    unfold TooLarge INT_MAX SIZEOF_RECT
    omega

/-- **`REGION_XorRegion`** -/
theorem xorRegion_spec {m : Mem ρ} (dr : ρ) {sra srb : ρ} (h1 : (m (.obj sra)).WellFormed)
    (h2 : (m (.obj srb)).WellFormed) :
    Yields (fun m' => (m' (.obj dr)).WellFormed ∧
        (∀ x y, (m' (.obj dr)).Covers x y ↔
          (m (.obj sra)).Covers x y ∧ ¬ (m (.obj srb)).Covers x y ∨
            (m (.obj srb)).Covers x y ∧ ¬ (m (.obj sra)).Covers x y) ∧
        ∀ o, o ≠ dr → m' (.obj o) = m (.obj o))
      (FailsOnly ((TooLarge (m (.obj sra)).numRects ∨ TooLarge (m (.obj srb)).numRects) ∨
        LargeDifference (m (.obj sra)) (m (.obj srb)) ∨
          LargeDifference (m (.obj srb)) (m (.obj sra))))
      (xorRegion m (.obj dr) (.obj sra) (.obj srb)) := by
  have hfail : ∀ {A B : Prop} (e : Fail), (A → B) → FailsOnly A e → FailsOnly B e :=
    fun _ hAB h => h.imp_right fun h => ⟨h.1, hAB h.2⟩
  unfold xorRegion
  refine ((initSucc_spec _).imp (fun _ h => h) fun e => hfail e fun h => .inl (.inl h)).bind
    fun tra _ => ?_
  refine ((initSucc_spec _).imp (fun _ h => h) fun e => hfail e fun h => .inl (.inr h)).bind
    fun trb _ => ?_
  -- the sources are objects, and so not the local regions
  have hm₀ : ∀ o : ρ, update (update m .tra tra) .trb trb (.obj o) = m (.obj o) :=
    fun o => by simp
  generalize update (update m .tra tra) .trb trb = m₀ at hm₀ ⊢
  rw [← hm₀ sra] at h1 ⊢
  rw [← hm₀ srb] at h2 ⊢
  have hlarge : ∀ {n k : ℕ}, TooLarge (max n k) → TooLarge n ∨ TooLarge k := tooLarge_max.1
  refine ((subtractRegion_spec .tra h1 h2).imp (fun _ h => h) fun e => hfail e fun h =>
    .inl (hlarge h)).bind fun m₁ hL₁ => ?_
  have hsra : m₁ (.obj sra) = m₀ (.obj sra) := hL₁.frame _ (by simp)
  have hsrb : m₁ (.obj srb) = m₀ (.obj srb) := hL₁.frame _ (by simp)
  have hsub := subtractRegion_spec .trb
    (show (m₁ (.obj srb)).WellFormed by rwa [hsrb])
    (show (m₁ (.obj sra)).WellFormed by rwa [hsra])
  simp only [hsra, hsrb] at hsub
  refine (hsub.imp (fun _ h => h) fun e => hfail e fun h => .inl (hlarge h).symm).bind
    fun m₂ hL₂ => ?_
  have htra : m₂ .tra = m₁ .tra := hL₂.frame _ (by simp)
  have hwf₁ : (m₂ .tra).WellFormed := by
    rw [htra]
    exact hL₁.wellFormed
  have hpts₁ : ∀ x y, (m₂ .tra).Covers x y ↔
      (m₀ (.obj sra)).Covers x y ∧ ¬ (m₀ (.obj srb)).Covers x y := fun x y => by
    rw [htra]
    exact hL₁.points x y
  refine (unionRegion_spec (.obj dr) hwf₁ hL₂.wellFormed).imp (fun m₃ hL₃ => ?_) fun e =>
    hfail e fun h => .inr ((hlarge h).imp (fun h => ⟨_, hwf₁, hpts₁, h⟩) fun h =>
      ⟨_, hL₂.wellFormed, hL₂.points, h⟩)
  refine ⟨hL₃.wellFormed, fun x y => ?_, fun o ho => ?_⟩
  · rw [hL₃.points, hpts₁, hL₂.points]
  · rw [hL₃.frame _ (by simpa using ho), hL₂.frame _ (by simp), hL₁.frame _ (by simp), hm₀]

/-! ### `CombineRgn` -/

/-- The modes. -/
inductive Mode
  | and
  | or
  | xor
  | diff
  | copy
  deriving DecidableEq, Repr

/-- The constant of a mode. -/
def Mode.code : Mode → ℕ
  | .and => RGN_AND
  | .or => RGN_OR
  | .xor => RGN_XOR
  | .diff => RGN_DIFF
  | .copy => RGN_COPY

/-- The operation of a mode on the points of the sources. -/
def Mode.op : Mode → Prop → Prop → Prop
  | .and, p, q => p ∧ q
  | .or, p, q => p ∨ q
  | .xor, p, q => p ∧ ¬ q ∨ q ∧ ¬ p
  | .diff, p, q => p ∧ ¬ q
  | .copy, p, _ => p

/-- **What `CombineRgn` leaves and returns.** -/
structure Combined (m m' : Mem ρ) (d s₁ s₂ : ρ) (mode : Mode) (ret : ℕ) : Prop where
  /-- The destination is in canonical form, with its bounding box. -/
  wellFormed : (m' (.obj d)).WellFormed
  points : ∀ x y, (m' (.obj d)).Covers x y ↔
    mode.op ((m (.obj s₁)).Covers x y) ((m (.obj s₂)).Covers x y)
  /-- The other regions are as they were. -/
  frame : ∀ o, o ≠ d → m' (.obj o) = m (.obj o)
  null_iff : ret = NULLREGION ↔ (m' (.obj d)).numRects = 0
  simple_iff : ret = SIMPLEREGION ↔ (m' (.obj d)).numRects = 1
  complex_iff : ret = COMPLEXREGION ↔ 2 ≤ (m' (.obj d)).numRects

/-- `init_region` refuses an array for the operation: more than half as many rectangles as it
admits are in a source or, for `RGN_XOR`, in one of the differences. -/
def Refused (reg1 reg2 : WINEREGION) (mode : Mode) : Prop :=
  mode ≠ .copy ∧ (TooLarge reg1.numRects ∨ TooLarge reg2.numRects ∨
    mode = .xor ∧ (LargeDifference reg1 reg2 ∨ LargeDifference reg2 reg1))

/-- With how many rectangles the operation of a mode computes at most, if its sources have `n`. -/
def Mode.most (n : ℕ) : Mode → ℕ
  | .xor => sweepSize (2 * sweepSize n)
  | _ => sweepSize n

theorem getRegionType_iff (rgn : WINEREGION) :
    (getRegionType rgn = NULLREGION ↔ rgn.numRects = 0) ∧
      (getRegionType rgn = SIMPLEREGION ↔ rgn.numRects = 1) ∧
        (getRegionType rgn = COMPLEXREGION ↔ 2 ≤ rgn.numRects) := by
  unfold getRegionType
  rcases hn : rgn.numRects with _ | _ | n
  · decide
  · decide
  · simp [NULLREGION, SIMPLEREGION, COMPLEXREGION]

theorem operation_spec {m : Mem ρ} (d : ρ) {s₁ s₂ : ρ} {mode : Mode} (hcopy : mode ≠ .copy)
    (h1 : (m (.obj s₁)).WellFormed) (h2 : (m (.obj s₂)).WellFormed) :
    ∃ op, operation mode.code = some op ∧
      Yields (fun m' => (m' (.obj d)).WellFormed ∧
          (∀ x y, (m' (.obj d)).Covers x y ↔
            mode.op ((m (.obj s₁)).Covers x y) ((m (.obj s₂)).Covers x y)) ∧
          ∀ o, o ≠ d → m' (.obj o) = m (.obj o))
        (FailsOnly (Refused (m (.obj s₁)) (m (.obj s₂)) mode))
        (op m (.obj d) (.obj s₁) (.obj s₂)) := by
  -- the operations that sweep the sources once
  have hsweep : ∀ {P : ℤ → ℤ → Prop} {x : Except Fail (Mem ρ)}, Yields (Leaves m (.obj d) P)
      (FailsOnly (TooLarge (max (m (.obj s₁)).numRects (m (.obj s₂)).numRects))) x →
      Yields (fun m' => (m' (.obj d)).WellFormed ∧ (∀ x y, (m' (.obj d)).Covers x y ↔ P x y) ∧
        ∀ o, o ≠ d → m' (.obj o) = m (.obj o))
        (FailsOnly (Refused (m (.obj s₁)) (m (.obj s₂)) mode)) x := by
    intro P x hx
    refine hx.imp (fun m' h => ⟨h.wellFormed, h.points, fun o ho => h.frame _ (by simpa using ho)⟩)
      fun e he => he.imp_right fun h => ⟨h.1, hcopy, ?_⟩
    exact (tooLarge_max.1 h.2).imp_right .inl
  cases mode with
  | and => exact ⟨_, rfl, hsweep (intersectRegion_spec (.obj d) h1 h2)⟩
  | or => exact ⟨_, rfl, hsweep (unionRegion_spec (.obj d) h1 h2)⟩
  | diff => exact ⟨_, rfl, hsweep (subtractRegion_spec (.obj d) h1 h2)⟩
  | xor =>
    refine ⟨_, rfl, (xorRegion_spec d h1 h2).imp (fun _ h => h) fun e he =>
      he.imp_right fun h => ⟨h.1, hcopy, ?_⟩⟩
    rcases h.2 with (h | h) | h
    · exact .inl h
    · exact .inr (.inl h)
    · exact .inr (.inr ⟨rfl, h⟩)
  | copy => exact absurd rfl hcopy

theorem operation_size {m : Mem ρ} (d s₁ s₂ : ρ) {mode : Mode}
    {op : Mem ρ → Ptr ρ → Ptr ρ → Ptr ρ → Except Fail (Mem ρ)}
    (hop : operation mode.code = some op) :
    Yields (fun _ => True) (Within (mode.most ((m (.obj s₁)).numRects + (m (.obj s₂)).numRects)))
      (op m (.obj d) (.obj s₁) (.obj s₂)) := by
  cases mode with
  | and =>
    obtain rfl := Option.some.inj hop
    exact intersectRegion_size m _ _ _
  | or =>
    obtain rfl := Option.some.inj hop
    exact unionRegion_size m _ _ _
  | xor =>
    obtain rfl := Option.some.inj hop
    exact xorRegion_size m _ _ _
  | diff =>
    obtain rfl := Option.some.inj hop
    exact (subtractRegion_size m _ _ _).mono fun _ _ => trivial
  | copy => cases hop

/-- The three ends of a call. -/
theorem combineRgn_cases (getObjPtr : η → Option ρ) (m : Mem ρ) {hDest hSrc1 hSrc2 : η}
    {d s₁ s₂ : ρ} (mode : Mode) (hd : getObjPtr hDest = some d) (h1 : getObjPtr hSrc1 = some s₁)
    (h2 : mode ≠ .copy → getObjPtr hSrc2 = some s₂) (hw1 : (m (.obj s₁)).WellFormed)
    (hw2 : mode ≠ .copy → (m (.obj s₂)).WellFormed) :
    (∃ m' ret, combineRgn getObjPtr m hDest hSrc1 hSrc2 mode.code = .ok (m', ret) ∧
      Combined m m' d s₁ s₂ mode ret) ∨
    (combineRgn getObjPtr m hDest hSrc1 hSrc2 mode.code = .ok (m, ERROR) ∧
      Refused (m (.obj s₁)) (m (.obj s₂)) mode) ∨
    ∃ n, combineRgn getObjPtr m hDest hSrc1 hSrc2 mode.code = .error n ∧ 1073741824 ≤ n ∧
      n ≤ mode.most ((m (.obj s₁)).numRects + (m (.obj s₂)).numRects) := by
  simp only [combineRgn, hd, h1]
  by_cases hcopy : mode = .copy
  · subst hcopy
    rw [if_pos (show Mode.copy.code = RGN_COPY from rfl)]
    have hL := copyRegion_spec (.obj d) hw1
    obtain ⟨hnull, hsimple, hcomplex⟩ :=
      getRegionType_iff (copyRegion m (.obj d) (.obj s₁) (.obj d))
    exact .inl ⟨_, _, rfl, hL.wellFormed, hL.points, fun o ho => hL.frame _ (by simpa using ho),
      hnull, hsimple, hcomplex⟩
  · have hcode : mode.code ≠ RGN_COPY := by
      cases mode with
      | copy => exact absurd rfl hcopy
      | _ => decide
    obtain ⟨op, hop, hyields⟩ := operation_spec d hcopy hw1 (hw2 hcopy)
    have hsize := operation_size (m := m) d s₁ s₂ hop
    rw [if_neg hcode, h2 hcopy, hop]
    simp only
    generalize op m (.obj d) (.obj s₁) (.obj s₂) = result at hyields hsize
    cases result with
    | ok m' =>
      obtain ⟨hwf, hpts, hframe⟩ := hyields
      obtain ⟨hnull, hsimple, hcomplex⟩ := getRegionType_iff (m' (.obj d))
      exact .inl ⟨m', _, rfl, hwf, hpts, hframe, hnull, hsimple, hcomplex⟩
    | error e =>
      rcases hyields with ⟨n, rfl, hn⟩ | ⟨rfl, hrefused⟩
      · exact .inr (.inr ⟨n, rfl, hn, hsize n rfl⟩)
      · exact .inr (.inl ⟨rfl, hrefused⟩)

/-- **`CombineRgn`** leaves in the destination the canonical form of the operation on the sources,
with its bounding box, and returns its type.  It fails, and leaves all regions as they were, only
if `init_region` refuses an array; and it goes on beyond that only where a number that is no `INT`
is computed from `2 ^ 30` rectangles or more, of which the sources are so large as to make them. -/
theorem combineRgn_spec (getObjPtr : η → Option ρ) (m : Mem ρ) {hDest hSrc1 hSrc2 : η}
    {d s₁ s₂ : ρ} (mode : Mode) (hd : getObjPtr hDest = some d) (h1 : getObjPtr hSrc1 = some s₁)
    (h2 : mode ≠ .copy → getObjPtr hSrc2 = some s₂) (hw1 : (m (.obj s₁)).WellFormed)
    (hw2 : mode ≠ .copy → (m (.obj s₂)).WellFormed) :
    (∃ m' ret, combineRgn getObjPtr m hDest hSrc1 hSrc2 mode.code = .ok (m', ret) ∧
      Combined m m' d s₁ s₂ mode ret) ∨
    (combineRgn getObjPtr m hDest hSrc1 hSrc2 mode.code = .ok (m, ERROR) ∧
      Refused (m (.obj s₁)) (m (.obj s₂)) mode) ∨
    ∃ n, combineRgn getObjPtr m hDest hSrc1 hSrc2 mode.code = .error n ∧ 1073741824 ≤ n ∧
      n ≤ mode.most ((m (.obj s₁)).numRects + (m (.obj s₂)).numRects) :=
  combineRgn_cases getObjPtr m mode hd h1 h2 hw1 hw2

/-- The square of side 2 from `(a, a)` on. -/
def square (a : ℤ) : WINEREGION :=
  setExtents ⟨4, [⟨a, a, a + 2, a + 2⟩], ⟨0, 0, 0, 0⟩, le_rfl, by simp⟩

theorem square_wellFormed (a : ℤ) : (square a).WellFormed := by
  refine setExtents_wellFormed ⟨[⟨a, a + 2, [(a, a + 2)], by omega, by simp, ?_⟩], ?_, rfl⟩
  · exact separated_singleton (show a < a + 2 by omega)
  · exact List.isChain_singleton _

/-- A region for each number, the square there. -/
def squares : Mem ℤ
  | .obj a => square a
  | _ => square 0

/-- The squares at 0 and at 1 overlap; the first one is also the destination.  They are too small
for a call that fails. -/
theorem combineRgn_squares :
    ∃ m' ret, combineRgn (some : ℤ → Option ℤ) squares 0 0 1 Mode.xor.code = .ok (m', ret) ∧
      Combined squares m' 0 0 1 .xor ret := by
  have hret : (combineRgn (some : ℤ → Option ℤ) squares 0 0 1 Mode.xor.code).toOption.map
      (fun p => p.2) = some COMPLEXREGION := by decide +kernel
  rcases combineRgn_spec some squares .xor (show some (0 : ℤ) = some 0 from rfl)
    (show some (0 : ℤ) = some 0 from rfl) (fun _ => show some (1 : ℤ) = some 1 from rfl)
    (square_wellFormed 0) (fun _ => square_wellFormed 1) with h | ⟨hfail, -⟩ | ⟨n, -, hn, hmost⟩
  · exact h
  · rw [hfail] at hret
    exact absurd hret (by decide)
  · have : n ≤ 512 := hmost
    omega

example : (combineRgn (some : ℤ → Option ℤ) squares 0 0 1 RGN_XOR).toOption.map
    (fun p => (p.2, (p.1 (.obj 0)).rects)) =
    some (COMPLEXREGION, [⟨0, 0, 2, 1⟩, ⟨0, 1, 1, 2⟩, ⟨2, 1, 3, 2⟩, ⟨1, 2, 3, 3⟩]) := by
  decide +kernel

/-! ### The limit -/

/-- A comb of `n` teeth in one band. -/
def comb (n : ℕ) : WINEREGION :=
  setExtents
    { size := max n RGN_DEFAULT_RECTS
      rects := (List.range n).map fun i : ℕ => ⟨2 * (i : ℤ), 0, 2 * (i : ℤ) + 1, 1⟩
      extents := ⟨0, 0, 0, 0⟩
      default_le := le_max_right _ _
      fits := by simp }

theorem comb_numRects (n : ℕ) : (comb n).numRects = n := by
  unfold WINEREGION.numRects comb
  rw [setExtents_rects]
  simp

theorem comb_wellFormed {n : ℕ} (hn : 0 < n) : (comb n).WellFormed := by
  have hsep : Separated ((List.range n).map fun i : ℕ => ((2 * i : ℤ), (2 * i + 1 : ℤ))) := by
    refine ⟨fun s hs => ?_, List.pairwise_map.2 ?_⟩
    · obtain ⟨i, -, rfl⟩ := List.mem_map.1 hs
      show (2 * i : ℤ) < 2 * i + 1
      omega
    · refine List.pairwise_lt_range.imp fun {i j} hij => ?_
      show (2 * i + 1 : ℤ) < 2 * j
      omega
  have hne : (List.range n).map (fun i : ℕ => ((2 * i : ℤ), (2 * i + 1 : ℤ))) ≠ [] := by
    simpa using Nat.pos_iff_ne_zero.1 hn
  refine setExtents_wellFormed ⟨[⟨0, 1, _, zero_lt_one, hne, hsep⟩], List.isChain_singleton _, ?_⟩
  simp [bandRects, toRect, Function.comp_def]

theorem overlapping_self {rgn : WINEREGION} (h : rgn.WellFormed) (hne : rgn.rects ≠ []) :
    overlapping rgn.extents rgn.extents = true := by
  obtain ⟨x, y, hc⟩ := exists_covers h.canonical hne
  have := (h.bounds hne).mem hc
  simp only [overlapping, Bool.and_eq_true, decide_eq_true_eq]
  omega

theorem combineRgn_comb {n : ℕ} (hn : TooLarge n) (hmax : 2 * n ≤ INT_MAX) :
    combineRgn (some : Unit → Option Unit) (fun _ => comb n) () () () Mode.and.code =
      .ok ((fun _ => comb n), ERROR) := by
  have hpos : 0 < n := by
    unfold TooLarge INT_MAX SIZEOF_RECT at hn
    omega
  have hne : (comb n).numRects ≠ 0 := by
    rw [comb_numRects]
    omega
  have hlap := overlapping_self (comb_wellFormed hpos) (rects_ne_nil hne)
  have htwice : twice (max (comb n).numRects (comb n).numRects) = .ok (2 * n) := by
    rw [comb_numRects, max_self]
    exact if_pos hmax
  have hinit : initRegion (2 * n) = .error .refused := by
    refine if_pos ⟨?_, hn.trans_le (le_max_left _ _)⟩
    unfold TooLarge INT_MAX SIZEOF_RECT at hn
    unfold RGN_DEFAULT_RECTS
    omega
  have hop : opRegion ⟨intersectO, none, none⟩ (comb n) (comb n) = .error .refused := by
    unfold opRegion
    rw [htwice]
    show (initRegion (2 * n)).bind _ = _
    rw [hinit]
    rfl
  have hand : intersectRegion (fun _ => comb n) (.obj ()) (.obj ()) (.obj ()) =
      .error .refused := by
    simp only [intersectRegion, hne, hlap, Bool.true_eq_false, or_self, if_false, regionOp, hop]
    rfl
  simp only [combineRgn]
  show returnType _ _ (intersectRegion _ _ _ _) = _
  rw [hand]
  rfl

/-- An intersection of well-formed regions that `init_region` refuses. -/
theorem comb_refused : (comb 67108864).WellFormed ∧ (comb 67108864).numRects = 67108864 ∧
    combineRgn (some : Unit → Option Unit) (fun _ => comb 67108864) () () () Mode.and.code =
      .ok ((fun _ => comb 67108864), ERROR) :=
  ⟨comb_wellFormed (by omega), comb_numRects _,
    combineRgn_comb (by unfold TooLarge INT_MAX SIZEOF_RECT; omega) (by unfold INT_MAX; omega)⟩

end Region

end Swinx
