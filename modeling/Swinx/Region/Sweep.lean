import Swinx.Region.Callbacks

/-!
# `REGION_RegionOp`

The rectangles of the two regions are those of bands in canonical form, and so are those of the new
region at every time.  A pass of the loop ends at the first end of a band of the two; all points
above it are then decided.

* `coalesce_spec` — `REGION_Coalesce` pushes a band.
* `sweepBand_spec`, `sweep_spec` — one pass, and all of them.
* `opRegion_spec` — the new region has the points of the operation, in canonical form.
-/

namespace Swinx

namespace Region

open Bands

/-! ### The rectangles of bands -/

/-- The rectangles of a band. -/
def bandRects (b : Band ℤ) : List RECT := b.spans.map (toRect b.top b.bottom)

/-- **The rectangles of bands**, from top to bottom and from left to right. -/
def rectsOf (D : List (Band ℤ)) : List RECT := D.flatMap bandRects

@[simp] theorem rectsOf_nil : rectsOf [] = [] := rfl

@[simp] theorem rectsOf_cons (b : Band ℤ) (D : List (Band ℤ)) :
    rectsOf (b :: D) = bandRects b ++ rectsOf D := rfl

@[simp] theorem rectsOf_append (D E : List (Band ℤ)) :
    rectsOf (D ++ E) = rectsOf D ++ rectsOf E := List.flatMap_append

theorem sides_bandRects (b : Band ℤ) : (bandRects b).map RECT.sides = b.spans := by
  rw [bandRects, List.map_map]
  exact List.map_id _

theorem length_bandRects (b : Band ℤ) : (bandRects b).length = b.spans.length :=
  List.length_map _

theorem bandRects_ne_nil (b : Band ℤ) : bandRects b ≠ [] := fun h =>
  b.ne_nil (List.map_eq_nil_iff.1 h)

theorem of_mem_bandRects {b : Band ℤ} {r : RECT} (h : r ∈ bandRects b) :
    r.top = b.top ∧ r.bottom = b.bottom := by
  obtain ⟨s, -, rfl⟩ := List.mem_map.1 h
  exact ⟨rfl, rfl⟩

theorem rectsOf_eq_nil_iff {D : List (Band ℤ)} : rectsOf D = [] ↔ D = [] := by
  cases D with
  | nil => simp
  | cons b D => simp [bandRects_ne_nil]

theorem exists_head (b : Band ℤ) (D : List (Band ℤ)) :
    ∃ a r, rectsOf (b :: D) = a :: r ∧ a.top = b.top ∧ a.bottom = b.bottom := by
  obtain ⟨a, r, h⟩ := List.exists_cons_of_ne_nil (bandRects_ne_nil b)
  have ha := of_mem_bandRects (b := b) (r := a) (by rw [h]; exact List.mem_cons_self)
  exact ⟨a, r ++ rectsOf D, by rw [rectsOf_cons, h]; rfl, ha⟩

theorem mem_rectsOf {D : List (Band ℤ)} {r : RECT} :
    r ∈ rectsOf D ↔ ∃ b ∈ D, r ∈ bandRects b := List.mem_flatMap

theorem topBand_rectsOf {b : Band ℤ} {D : List (Band ℤ)} (hD : ∀ c ∈ D, c.top ≠ b.top) :
    topBand (rectsOf (b :: D)) = bandRects b ∧ afterBand (rectsOf (b :: D)) = rectsOf D := by
  obtain ⟨a, r, har, hatop, -⟩ := exists_head b D
  have hband : ∀ s ∈ bandRects b, (s.top == a.top) = true := fun s hs => by
    rw [(of_mem_bandRects hs).1, hatop]
    exact beq_self_eq_true _
  have hrest : (rectsOf D).takeWhile (fun s => s.top == a.top) = [] ∧
      (rectsOf D).dropWhile (fun s => s.top == a.top) = rectsOf D := by
    cases D with
    | nil => exact ⟨rfl, rfl⟩
    | cons c D =>
      obtain ⟨a', r', har', hatop', -⟩ := exists_head c D
      have hne : (a'.top == a.top) = false := by
        rw [hatop, hatop']
        exact beq_false_of_ne (hD c List.mem_cons_self)
      rw [har', List.takeWhile_cons, List.dropWhile_cons, hne]
      exact ⟨rfl, rfl⟩
  have htop : topBand (rectsOf (b :: D)) =
      (rectsOf (b :: D)).takeWhile fun s => s.top == a.top := by
    rw [har]
    rfl
  have hafter : afterBand (rectsOf (b :: D)) =
      (rectsOf (b :: D)).dropWhile fun s => s.top == a.top := by
    rw [har]
    rfl
  rw [htop, hafter, rectsOf_cons, List.takeWhile_append_of_pos hband,
    List.dropWhile_append_of_pos hband, hrest.1, hrest.2, List.append_nil]
  exact ⟨rfl, rfl⟩

theorem top_ne_of_banded {b : Band ℤ} {D : List (Band ℤ)} (h : Banded (b :: D)) :
    ∀ c ∈ D, c.top ≠ b.top := fun _ hc heq =>
  absurd (b.top_lt.trans_le (h.bottom_le hc)) (heq ▸ lt_irrefl _)

/-! ### `REGION_Coalesce` -/

/-- Two bands line up if the second one continues the first one. -/
theorem linesUp_iff {d b : Band ℤ} : LinesUp (bandRects d) (bandRects b) ↔ d.Continues b := by
  obtain ⟨a, r, har, hatop, -⟩ := exists_head b []
  obtain ⟨a', r', har', -, hbot'⟩ := exists_head d []
  rw [rectsOf_cons, rectsOf_nil, List.append_nil] at har har'
  have hlen : (bandRects b).length ≠ 0 := fun h => bandRects_ne_nil b (List.length_eq_zero_iff.1 h)
  unfold LinesUp Band.Continues
  rw [sides_bandRects, sides_bandRects, length_bandRects d]
  constructor
  · rintro ⟨-, hy, hs⟩
    rw [har, har'] at hy
    simp only [List.head?_cons, Option.map_some, Option.some.injEq] at hy
    exact ⟨by rw [← hbot', hy, hatop], hs⟩
  · rintro ⟨hy, hs⟩
    refine ⟨⟨by rw [length_bandRects, hs], hlen⟩, ?_, hs⟩
    rw [har, har']
    simp only [List.head?_cons, Option.map_some, Option.some.injEq]
    rw [hbot', hy, hatop]

/-- The rectangles of the band that is continued get the bottom of the other one. -/
theorem setBottoms_eq {d b : Band ℤ} (h : d.Continues b) :
    setBottoms (bandRects d) (bandRects b) = bandRects (d.join b h) := by
  simp only [setBottoms, bandRects, Band.join, ← h.2]
  rw [List.zipWith_map_left, List.zipWith_map_right, List.zipWith_self]
  rfl

/-- **The new region is built up from bands in canonical form.** -/
structure Built (D : List (Band ℤ)) (reg : WINEREGION) (prevBand : ℕ) : Prop where
  banded : Banded D
  rects : reg.rects = rectsOf D
  /-- The last band begins here. -/
  prevBand : prevBand = (rectsOf D.dropLast).length

/-- **`REGION_Coalesce` pushes the first of the bands that were added.** -/
theorem coalesce_spec {D E : List (Band ℤ)} {b : Band ℤ} {reg : WINEREGION} {prevBand : ℕ}
    (hrects : reg.rects = rectsOf D ++ rectsOf (b :: E)) (hE : ∀ c ∈ E, c.top ≠ b.top)
    (hprev : prevBand = (rectsOf D.dropLast).length) :
    (coalesce reg prevBand (rectsOf D).length).1.rects = rectsOf (push D b ++ E) ∧
      (E = [] → (coalesce reg prevBand (rectsOf D).length).2 =
        (rectsOf (push D b).dropLast).length) := by
  have htake : reg.rects.take (rectsOf D).length = rectsOf D := by
    rw [hrects]
    exact List.take_left
  have hdrop : reg.rects.drop (rectsOf D).length = rectsOf (b :: E) := by
    rw [hrects]
    exact List.drop_left
  obtain ⟨htop, hafter⟩ := topBand_rectsOf hE
  unfold coalesce
  rw [htake, hdrop, htop, hafter]
  rcases List.eq_nil_or_concat' D with rfl | ⟨D, d, rfl⟩
  · -- no band to merge with
    rw [if_neg]
    · refine ⟨hrects, ?_⟩
      rintro rfl
      rfl
    · rintro ⟨⟨hlen, hne⟩, -⟩
      rw [hlen, rectsOf_nil, List.drop_nil] at hne
      exact hne rfl
  · rw [List.dropLast_concat] at hprev
    have hdropPrev : (rectsOf (D ++ [d])).drop prevBand = bandRects d := by
      rw [hprev, rectsOf_append, List.drop_left, rectsOf_cons, rectsOf_nil, List.append_nil]
    have htakePrev : (rectsOf (D ++ [d])).take prevBand = rectsOf D := by
      rw [hprev, rectsOf_append, List.take_left]
    rw [hdropPrev]
    by_cases hcont : d.Continues b
    · rw [if_pos (linesUp_iff.2 hcont), push_concat_of_continues hcont]
      refine ⟨?_, ?_⟩
      · show mergedRects reg.rects prevBand (rectsOf (D ++ [d])).length = _
        rw [mergedRects, htake, hdrop, htop, hafter, hdropPrev, htakePrev, setBottoms_eq hcont]
        simp
      · rintro rfl
        rw [List.dropLast_concat]
        exact hprev
    · rw [if_neg fun h => hcont (linesUp_iff.1 h), push_concat_of_not_continues hcont]
      refine ⟨?_, ?_⟩
      · rw [hrects]
        simp
      · rintro rfl
        show (rectsOf (D ++ [d])).length = _
        rw [show D ++ [d, b] = D ++ [d] ++ [b] by simp, List.dropLast_concat]

namespace Built

variable {D : List (Band ℤ)} {reg reg' : WINEREGION} {prevBand : ℕ} {top bottom : ℤ}

theorem top_lt (h : Built D reg prevBand) {y : ℤ} (hD : ∀ d ∈ D, d.bottom ≤ y) :
    ∀ r ∈ reg.rects, r.top < y := by
  intro r hr
  rw [h.rects] at hr
  obtain ⟨d, hd, hr⟩ := mem_rectsOf.1 hr
  rw [(of_mem_bandRects hr).1]
  exact d.top_lt.trans_le (hD d hd)

/-- **What a callback has emitted becomes a band**, if it is anything. -/
theorem add {P : ℤ → Prop} (h : Built D reg prevBand) (hD : ∀ d ∈ D, d.bottom ≤ top)
    (hlt : top < bottom) (hE : Emits reg top bottom P reg') :
    ∃ D', Built D' (coalesceAdded reg' prevBand reg.numRects).1
        (coalesceAdded reg' prevBand reg.numRects).2 ∧
      (∀ d ∈ D', d.bottom ≤ bottom) ∧
      ∀ x y, CoversIn D' x y ↔ CoversIn D x y ∨ (top ≤ y ∧ y < bottom) ∧ P x := by
  obtain ⟨out, hsep, hpts, hrects⟩ := hE
  have hDbot : ∀ d ∈ D, d.bottom ≤ bottom := fun d hd => (hD d hd).trans hlt.le
  unfold coalesceAdded
  by_cases hout : out = []
  · subst hout
    rw [List.map_nil, List.append_nil] at hrects
    have hlen : reg'.numRects = reg.numRects := congrArg List.length hrects
    rw [if_neg (not_not.2 hlen)]
    refine ⟨D, ⟨h.banded, hrects.trans h.rects, h.prevBand⟩, hDbot, fun x y => ?_⟩
    simp [← hpts]
  · have hlen : reg'.numRects ≠ reg.numRects := by
      unfold WINEREGION.numRects
      rw [hrects, List.length_append, List.length_map]
      have := List.length_pos_iff.2 hout
      omega
    rw [if_pos hlen]
    let b : Band ℤ := ⟨top, bottom, out, hlt, hout, hsep⟩
    have hcur : reg.numRects = (rectsOf D).length := congrArg List.length h.rects
    have hb : reg'.rects = rectsOf D ++ rectsOf [b] := by
      rw [hrects, h.rects, rectsOf_cons, rectsOf_nil, List.append_nil]
      rfl
    obtain ⟨hpush, hprev⟩ := coalesce_spec hb (by simp) h.prevBand
    rw [hcur]
    refine ⟨push D b, ⟨h.banded.push hD, by rw [hpush, List.append_nil], hprev rfl⟩,
      fun d hd => bottom_le_of_mem_push hD hd, fun x y => ?_⟩
    rw [coversIn_push, ← hpts, and_assoc]
    rfl

end Built

/-! ### One pass -/

/-- **The callback for a band of one region**, which the operation keeps or drops. -/
def NonOverlapSpec (f : Option NonOverlapFunc) (q : Prop → Prop) : Prop :=
  f = some addRects ∧ (∀ p, q p ↔ p) ∨ f = none ∧ ∀ p, ¬ q p

/-- **The callbacks do the operation `op`** on the points of two regions. -/
structure Callbacks.Spec (ops : Callbacks) (op : Prop → Prop → Prop) : Prop where
  overlap : ∀ reg r1 r2 top bottom, Separated (r1.map RECT.sides) →
    Separated (r2.map RECT.sides) → (∀ r ∈ reg.rects, r.top < top) →
    Yields (Emits reg top bottom fun x =>
      op (Covers (r1.map RECT.sides) x) (Covers (r2.map RECT.sides) x)) Overflows
      (ops.overlapFunc reg r1 r2 top bottom)
  nonOverlap1 : NonOverlapSpec ops.nonOverlap1Func fun p => op p False
  nonOverlap2 : NonOverlapSpec ops.nonOverlap2Func fun p => op False p

theorem NonOverlapSpec.not_false {f : Option NonOverlapFunc} {q : Prop → Prop}
    (h : NonOverlapSpec f q) : ¬ q False := by
  rcases h with ⟨-, h⟩ | ⟨-, h⟩
  · exact fun hq => (h False).1 hq
  · exact h False

/-- The part of a band between `y₀` and `y₁` is added, if the operation keeps it. -/
theorem callNonOverlap_spec {f : Option NonOverlapFunc} {q : Prop → Prop}
    (hf : NonOverlapSpec f q) {D : List (Band ℤ)} {reg : WINEREGION} {prevBand : ℕ}
    (hB : Built D reg prevBand) {y₀ y₁ : ℤ} (hD : ∀ d ∈ D, d.bottom ≤ y₀) {b : Band ℤ}
    (hy : y₀ ≤ y₁) (htop : b.top ≤ y₁) (hbot : y₁ ≤ b.bottom) :
    Yields (fun reg' => ∃ D', Built D' (coalesceAdded reg' prevBand reg.numRects).1
        (coalesceAdded reg' prevBand reg.numRects).2 ∧ (∀ d ∈ D', d.bottom ≤ y₁) ∧
      ∀ x y, CoversIn D' x y ↔ CoversIn D x y ∨ (y₀ ≤ y ∧ y < y₁) ∧ q (b.Covers x y)) Overflows
      (callNonOverlap f reg (bandRects b) (max b.top y₀) y₁) := by
  have hD₁ : ∀ d ∈ D, d.bottom ≤ y₁ := fun d hd => (hD d hd).trans hy
  -- nothing is added
  have hsame : (∀ x y, ¬ ((y₀ ≤ y ∧ y < y₁) ∧ q (b.Covers x y))) →
      ∃ D', Built D' (coalesceAdded reg prevBand reg.numRects).1
        (coalesceAdded reg prevBand reg.numRects).2 ∧ (∀ d ∈ D', d.bottom ≤ y₁) ∧
      ∀ x y, CoversIn D' x y ↔ CoversIn D x y ∨ (y₀ ≤ y ∧ y < y₁) ∧ q (b.Covers x y) := by
    intro hno
    rw [coalesceAdded, if_neg (not_not.2 rfl)]
    exact ⟨D, hB, hD₁, fun x y => (or_iff_left (hno x y)).symm⟩
  rcases hf with ⟨rfl, hq⟩ | ⟨rfl, hq⟩
  · refine Yields.ite (fun hne => ?_) fun heq => Yields.ok (hsame fun x y h => ?_)
    · have hlt : max b.top y₀ < y₁ := lt_of_le_of_ne (max_le htop hy) hne
      refine (addRects_spec reg (bandRects b) (max b.top y₀) y₁).mono fun reg' hreg' => ?_
      have hE : Emits reg (max b.top y₀) y₁ (Covers b.spans) reg' :=
        ⟨b.spans, b.separated, fun _ => Iff.rfl, by rw [hreg', sides_bandRects]⟩
      obtain ⟨D', hB', hD', hpts⟩ :=
        hB.add (fun d hd => (hD d hd).trans (le_max_right _ _)) hlt hE
      refine ⟨D', hB', hD', fun x y => ?_⟩
      rw [hpts, hq, max_le_iff]
      unfold Band.Covers
      refine or_congr_right ⟨?_, ?_⟩
      · rintro ⟨⟨⟨htop, hy₀⟩, hy₁⟩, hx⟩
        exact ⟨⟨hy₀, hy₁⟩, htop, hy₁.trans_le hbot, hx⟩
      · rintro ⟨⟨hy₀, hy₁⟩, htop, -, hx⟩
        exact ⟨⟨⟨htop, hy₀⟩, hy₁⟩, hx⟩
    · have hcov := (hq _).1 h.2
      have := max_le hcov.1 h.1.1
      rw [not_not.1 heq] at this
      exact absurd h.1.2 this.not_gt
  · exact Yields.ok (hsame fun x y h => hq _ h.2)

/-- **The invariant of the loop**: the points above `ybot` are decided, and those below it are
those of the bands that are left. -/
structure Sweeping (op : Prop → Prop → Prop) (target : ℤ → ℤ → Prop) (B₁ B₂ D : List (Band ℤ))
    (ybot : ℤ) (reg : WINEREGION) (prevBand : ℕ) : Prop where
  banded1 : Banded B₁
  banded2 : Banded B₂
  below1 : ∀ b ∈ B₁, ybot < b.bottom
  below2 : ∀ b ∈ B₂, ybot < b.bottom
  /-- The last pass has ended a band of one of the regions. -/
  ended : (∀ b ∈ B₁, ybot ≤ b.top) ∨ ∀ b ∈ B₂, ybot ≤ b.top
  built : Built D reg prevBand
  above : ∀ d ∈ D, d.bottom ≤ ybot
  points : ∀ x y, target x y ↔
    CoversIn D x y ∨ ybot ≤ y ∧ op (CoversIn B₁ x y) (CoversIn B₂ x y)

/-- The bands after the one that ends at `ybot`. -/
def skip (ybot : ℤ) : List (Band ℤ) → List (Band ℤ)
  | [] => []
  | b :: B => if b.bottom = ybot then B else b :: B

section Skip

variable {ybot : ℤ} {b : Band ℤ} {B : List (Band ℤ)}

theorem banded_skip (h : Banded (b :: B)) : Banded (skip ybot (b :: B)) := by
  simp only [skip]
  split_ifs
  · exact h.tail
  · exact h

theorem length_skip_lt (b₁ b₂ : Band ℤ) (B₁ B₂ : List (Band ℤ)) :
    (skip (min b₁.bottom b₂.bottom) (b₁ :: B₁)).length +
        (skip (min b₁.bottom b₂.bottom) (b₂ :: B₂)).length <
      (b₁ :: B₁).length + (b₂ :: B₂).length := by
  simp only [skip]
  rcases min_choice b₁.bottom b₂.bottom with heq | heq <;> rw [heq] <;> split_ifs <;>
    simp only [List.length_cons] <;> omega

theorem lt_bottom_of_mem_skip (h : Banded (b :: B)) (hle : ybot ≤ b.bottom) :
    ∀ c ∈ skip ybot (b :: B), ybot < c.bottom := by
  have htail : ∀ c ∈ B, ybot < c.bottom := fun c hc =>
    (hle.trans (h.bottom_le hc)).trans_lt c.top_lt
  simp only [skip]
  split_ifs with heq
  · exact htail
  · intro c hc
    rcases List.mem_cons.1 hc with rfl | hc
    · exact lt_of_le_of_ne hle (Ne.symm heq)
    · exact htail c hc

theorem coversIn_skip {x y : ℤ} (hy : ybot ≤ y) :
    CoversIn (skip ybot (b :: B)) x y ↔ CoversIn (b :: B) x y := by
  simp only [skip]
  split_ifs with heq
  · rw [coversIn_cons]
    refine (or_iff_right fun h => ?_).symm
    exact absurd (heq ▸ h.2.1) hy.not_gt
  · rfl

/-- The rectangles that the source leaves are those of the bands that are left. -/
theorem skipBand_rectsOf (ybot : ℤ) (h : Banded (b :: B)) {a : RECT} (ha : a.bottom = b.bottom) :
    skipBand ybot a (rectsOf (b :: B)) = rectsOf (skip ybot (b :: B)) := by
  simp only [skipBand, skip, ha]
  split_ifs
  · exact (topBand_rectsOf (top_ne_of_banded h)).2
  · rfl

end Skip

namespace Sweeping

variable {op : Prop → Prop → Prop} {target : ℤ → ℤ → Prop} {ops : Callbacks}
  {b₁ b₂ : Band ℤ} {B₁ B₂ D : List (Band ℤ)} {ybot : ℤ} {reg : WINEREGION} {prevBand : ℕ}

theorem swap (h : Sweeping op target B₁ B₂ D ybot reg prevBand) :
    Sweeping (fun p q => op q p) target B₂ B₁ D ybot reg prevBand :=
  ⟨h.banded2, h.banded1, h.below2, h.below1, h.ended.symm, h.built, h.above, h.points⟩

/-- Above the second region the points are those of the first band. -/
theorem op_iff_of_lt (h : Sweeping op target (b₁ :: B₁) (b₂ :: B₂) D ybot reg prevBand) {x y : ℤ}
    (h₁ : y < b₁.bottom) (h₂ : y < b₂.top) :
    op (CoversIn (b₁ :: B₁) x y) (CoversIn (b₂ :: B₂) x y) ↔ op (b₁.Covers x y) False := by
  have hc₁ : CoversIn (b₁ :: B₁) x y ↔ b₁.Covers x y := by
    rw [coversIn_cons]
    exact or_iff_left fun hc => absurd (h.banded1.bottom_le_of_coversIn hc) h₁.not_ge
  have hc₂ : ¬ CoversIn (b₂ :: B₂) x y := fun hc =>
    absurd (h.banded2.top_le_of_coversIn hc) h₂.not_ge
  rw [hc₁, iff_false_intro hc₂]

/-- **The first half of a pass**, where the first region begins above the second one. -/
theorem nonOverlap (h : Sweeping op target (b₁ :: B₁) (b₂ :: B₂) D ybot reg prevBand)
    {f : Option NonOverlapFunc} (hf : NonOverlapSpec f fun p => op p False)
    (hlt : b₁.top < b₂.top) :
    Yields (fun reg' => ∃ D', Built D' (coalesceAdded reg' prevBand reg.numRects).1
        (coalesceAdded reg' prevBand reg.numRects).2 ∧
      (∀ d ∈ D', d.bottom ≤ min b₁.bottom b₂.top) ∧ ∀ x y, CoversIn D' x y ↔
        CoversIn D x y ∨ (ybot ≤ y ∧ y < min b₁.bottom b₂.top) ∧
          op (CoversIn (b₁ :: B₁) x y) (CoversIn (b₂ :: B₂) x y)) Overflows
      (callNonOverlap f reg (bandRects b₁) (max b₁.top ybot) (min b₁.bottom b₂.top)) := by
  have hy : ybot ≤ min b₁.bottom b₂.top := by
    refine le_min (h.below1 b₁ List.mem_cons_self).le ?_
    rcases h.ended with hb | hb
    · exact (hb b₁ List.mem_cons_self).trans hlt.le
    · exact hb b₂ List.mem_cons_self
  refine (callNonOverlap_spec hf h.built h.above hy (le_min b₁.top_lt.le hlt.le)
    (min_le_left _ _)).mono ?_
  rintro reg' ⟨D', hB', hD', hpts⟩
  refine ⟨D', hB', hD', fun x y => ?_⟩
  rw [hpts]
  refine or_congr_right (and_congr_right fun hyy => ?_)
  obtain ⟨hy₁, hy₂⟩ := lt_min_iff.1 hyy.2
  exact (h.op_iff_of_lt hy₁ hy₂).symm

/-- Where both regions begin at the same height, nothing is above it. -/
theorem points_of_top_eq (h : Sweeping op target (b₁ :: B₁) (b₂ :: B₂) D ybot reg prevBand)
    (hop : ¬ op False False) (htop : b₁.top = b₂.top) {x y : ℤ} (hy : y < b₁.top) :
    ¬ op (CoversIn (b₁ :: B₁) x y) (CoversIn (b₂ :: B₂) x y) := by
  rw [h.op_iff_of_lt (hy.trans b₁.top_lt) (htop ▸ hy)]
  rwa [iff_false_intro fun hc : b₁.Covers x y => absurd hc.1 hy.not_ge]

/-- **The second half of a pass**: what both bands have between `mid` and the first end. -/
theorem overlap (h : Sweeping op target (b₁ :: B₁) (b₂ :: B₂) D ybot reg prevBand)
    (hops : ops.Spec op) {D₁ : List (Band ℤ)} {reg₁ : WINEREGION} {prev₁ : ℕ}
    (hB : Built D₁ reg₁ prev₁) (hD : ∀ d ∈ D₁, d.bottom ≤ max b₁.top b₂.top)
    (hlt : max b₁.top b₂.top < min b₁.bottom b₂.bottom) :
    Yields (fun reg' => ∃ D', Built D' (coalesceAdded reg' prev₁ reg₁.numRects).1
        (coalesceAdded reg' prev₁ reg₁.numRects).2 ∧
      (∀ d ∈ D', d.bottom ≤ min b₁.bottom b₂.bottom) ∧ ∀ x y, CoversIn D' x y ↔
        CoversIn D₁ x y ∨ (max b₁.top b₂.top ≤ y ∧ y < min b₁.bottom b₂.bottom) ∧
          op (CoversIn (b₁ :: B₁) x y) (CoversIn (b₂ :: B₂) x y)) Overflows
      (ops.overlapFunc reg₁ (bandRects b₁) (bandRects b₂) (max b₁.top b₂.top)
        (min b₁.bottom b₂.bottom)) := by
  refine (hops.overlap reg₁ (bandRects b₁) (bandRects b₂) _ _ ?_ ?_ (hB.top_lt hD)).mono ?_
  · rw [sides_bandRects]
    exact b₁.separated
  · rw [sides_bandRects]
    exact b₂.separated
  · intro reg' hE
    simp only [sides_bandRects] at hE
    obtain ⟨D', hB', hD', hpts⟩ := hB.add hD hlt hE
    refine ⟨D', hB', hD', fun x y => ?_⟩
    rw [hpts]
    refine or_congr_right (and_congr_right fun hy => ?_)
    obtain ⟨htop₁, htop₂⟩ := max_le_iff.1 hy.1
    obtain ⟨hbot₁, hbot₂⟩ := lt_min_iff.1 hy.2
    have hc₁ : CoversIn (b₁ :: B₁) x y ↔ Covers b₁.spans x := by
      rw [coversIn_cons, or_iff_left fun hc =>
        absurd (h.banded1.bottom_le_of_coversIn hc) hbot₁.not_ge]
      exact ⟨fun hc => hc.2.2, fun hc => ⟨htop₁, hbot₁, hc⟩⟩
    have hc₂ : CoversIn (b₂ :: B₂) x y ↔ Covers b₂.spans x := by
      rw [coversIn_cons, or_iff_left fun hc =>
        absurd (h.banded2.bottom_le_of_coversIn hc) hbot₂.not_ge]
      exact ⟨fun hc => hc.2.2, fun hc => ⟨htop₂, hbot₂, hc⟩⟩
    rw [hc₁, hc₂]

/-- **After a pass** all points above the first end are decided. -/
theorem next (h : Sweeping op target (b₁ :: B₁) (b₂ :: B₂) D ybot reg prevBand)
    {D' : List (Band ℤ)} {reg' : WINEREGION} {prev' : ℕ} (hB : Built D' reg' prev')
    (hD : ∀ d ∈ D', d.bottom ≤ min b₁.bottom b₂.bottom)
    (hpts : ∀ x y, CoversIn D' x y ↔ CoversIn D x y ∨
      (ybot ≤ y ∧ y < min b₁.bottom b₂.bottom) ∧
        op (CoversIn (b₁ :: B₁) x y) (CoversIn (b₂ :: B₂) x y)) :
    Sweeping op target (skip (min b₁.bottom b₂.bottom) (b₁ :: B₁))
      (skip (min b₁.bottom b₂.bottom) (b₂ :: B₂)) D' (min b₁.bottom b₂.bottom) reg' prev' where
  banded1 := banded_skip h.banded1
  banded2 := banded_skip h.banded2
  below1 := lt_bottom_of_mem_skip h.banded1 (min_le_left _ _)
  below2 := lt_bottom_of_mem_skip h.banded2 (min_le_right _ _)
  ended := by
    rcases min_choice b₁.bottom b₂.bottom with heq | heq
    · refine .inl fun c hc => ?_
      rw [heq, skip, if_pos rfl] at hc
      rw [heq]
      exact h.banded1.bottom_le hc
    · refine .inr fun c hc => ?_
      rw [heq, skip, if_pos rfl] at hc
      rw [heq]
      exact h.banded2.bottom_le hc
  built := hB
  above := hD
  points := fun x y => by
    rw [h.points, hpts, or_assoc]
    refine or_congr_right ?_
    rcases lt_or_ge y (min b₁.bottom b₂.bottom) with hy | hy
    · simp [hy, hy.not_ge]
    · have hle : ybot ≤ y := by
        refine (le_min ?_ ?_).trans hy
        · exact (h.below1 b₁ List.mem_cons_self).le
        · exact (h.below2 b₂ List.mem_cons_self).le
      rw [coversIn_skip hy, coversIn_skip hy]
      simp [hy, hy.not_gt, hle]

theorem firstHalf (h : Sweeping op target (b₁ :: B₁) (b₂ :: B₂) D ybot reg prevBand)
    (hops : ops.Spec op) :
    Yields (fun reg' => ∃ D', Built D' (coalesceAdded reg' prevBand reg.numRects).1
        (coalesceAdded reg' prevBand reg.numRects).2 ∧
      (∀ d ∈ D', d.bottom ≤ min (max b₁.top b₂.top) (min b₁.bottom b₂.bottom)) ∧
      ∀ x y, CoversIn D' x y ↔ CoversIn D x y ∨
        (ybot ≤ y ∧ y < min (max b₁.top b₂.top) (min b₁.bottom b₂.bottom)) ∧
          op (CoversIn (b₁ :: B₁) x y) (CoversIn (b₂ :: B₂) x y)) Overflows
      (if b₁.top < b₂.top then
        callNonOverlap ops.nonOverlap1Func reg (bandRects b₁) (max b₁.top ybot)
          (min b₁.bottom b₂.top)
      else if b₂.top < b₁.top then
        callNonOverlap ops.nonOverlap2Func reg (bandRects b₂) (max b₂.top ybot)
          (min b₂.bottom b₁.top)
      else .ok reg) := by
  have hlt₁ := b₁.top_lt
  have hlt₂ := b₂.top_lt
  refine Yields.ite (fun h12 => ?_) fun h12 => Yields.ite (fun h21 => ?_) fun h21 => ?_
  · have hmin : min (max b₁.top b₂.top) (min b₁.bottom b₂.bottom) = min b₁.bottom b₂.top := by
      omega
    rw [hmin]
    exact h.nonOverlap hops.nonOverlap1 h12
  · have hmin : min (max b₁.top b₂.top) (min b₁.bottom b₂.bottom) = min b₂.bottom b₁.top := by
      omega
    rw [hmin]
    exact h.swap.nonOverlap hops.nonOverlap2 h21
  · have htop : b₁.top = b₂.top := le_antisymm (not_lt.1 h21) (not_lt.1 h12)
    have hmin : min (max b₁.top b₂.top) (min b₁.bottom b₂.bottom) = b₁.top := by omega
    rw [hmin]
    refine Yields.ok ?_
    rw [coalesceAdded, if_neg (not_not.2 rfl)]
    refine ⟨D, h.built, fun d hd => (h.above d hd).trans ?_, fun x y => ?_⟩
    · rcases h.ended with hb | hb
      · exact hb b₁ List.mem_cons_self
      · exact htop ▸ hb b₂ List.mem_cons_self
    · refine (or_iff_left fun hxy => ?_).symm
      exact h.points_of_top_eq hops.nonOverlap1.not_false htop hxy.1.2 hxy.2

end Sweeping

/-- **One pass of the loop keeps the invariant.** -/
theorem sweepBand_spec {op : Prop → Prop → Prop} {target : ℤ → ℤ → Prop} {ops : Callbacks}
    (hops : ops.Spec op) {b₁ b₂ : Band ℤ} {B₁ B₂ D : List (Band ℤ)} {ybot : ℤ} {reg : WINEREGION}
    {prevBand : ℕ} (h : Sweeping op target (b₁ :: B₁) (b₂ :: B₂) D ybot reg prevBand)
    {a b : RECT} (ha : a.top = b₁.top ∧ a.bottom = b₁.bottom)
    (hb : b.top = b₂.top ∧ b.bottom = b₂.bottom) :
    Yields (fun p => ∃ D', Sweeping op target (skip (min b₁.bottom b₂.bottom) (b₁ :: B₁))
        (skip (min b₁.bottom b₂.bottom) (b₂ :: B₂)) D' (min b₁.bottom b₂.bottom) p.1 p.2) Overflows
      (sweepBand ops a (rectsOf (b₁ :: B₁)) b (rectsOf (b₂ :: B₂)) ybot reg prevBand) := by
  have hytop : (if b₁.top < b₂.top then b₂.top else b₁.top) = max b₁.top b₂.top := by
    split_ifs <;> omega
  have hy : ybot ≤ max b₁.top b₂.top := by
    rcases h.ended with hb | hb
    · exact (hb b₁ List.mem_cons_self).trans (le_max_left _ _)
    · exact (hb b₂ List.mem_cons_self).trans (le_max_right _ _)
  simp only [sweepBand, ha.1, ha.2, hb.1, hb.2, hytop,
    (topBand_rectsOf (top_ne_of_banded h.banded1)).1,
    (topBand_rectsOf (top_ne_of_banded h.banded2)).1]
  refine (h.firstHalf hops).bind ?_
  rintro reg₁ ⟨D₁, hB₁, hD₁, hpts₁⟩
  by_cases hlap : min b₁.bottom b₂.bottom > max b₁.top b₂.top
  · rw [if_pos hlap]
    rw [min_eq_left hlap.le] at hD₁ hpts₁
    refine (h.overlap hops hB₁ hD₁ hlap).bind ?_
    rintro reg₂ ⟨D₂, hB₂, hD₂, hpts₂⟩
    refine Yields.ok ⟨D₂, h.next hB₂ hD₂ fun x y => ?_⟩
    rw [hpts₂, hpts₁, or_assoc, ← or_and_right]
    refine or_congr_right (and_congr_left fun _ => ?_)
    omega
  · rw [if_neg hlap]
    rw [min_eq_right (not_lt.1 hlap)] at hD₁ hpts₁
    refine Yields.ok ⟨D₁, h.next ?_ hD₁ hpts₁⟩
    rw [coalesceAdded, if_neg (not_not.2 rfl)]
    exact hB₁

/-- **The loop** ends with one of the regions at its end. -/
theorem sweep_spec {op : Prop → Prop → Prop} {target : ℤ → ℤ → Prop} {ops : Callbacks}
    (hops : ops.Spec op) (B₁ B₂ D : List (Band ℤ)) (ybot : ℤ) (reg : WINEREGION) (prevBand : ℕ)
    (h : Sweeping op target B₁ B₂ D ybot reg prevBand) :
    Yields (fun s => ∃ C₁ C₂ D', s.r1 = rectsOf C₁ ∧ s.r2 = rectsOf C₂ ∧ (C₁ = [] ∨ C₂ = []) ∧
        Sweeping op target C₁ C₂ D' s.ybot s.newReg s.prevBand) Overflows
      (sweep ops (rectsOf B₁) (rectsOf B₂) ybot reg prevBand) := by
  match B₁, B₂ with
  | [], B₂ =>
    rw [rectsOf_nil, sweep]
    · exact Yields.ok ⟨[], B₂, D, rfl, rfl, .inl rfl, h⟩
    · simp
  | B₁, [] =>
    rw [rectsOf_nil, sweep]
    · exact Yields.ok ⟨B₁, [], D, rfl, rfl, .inr rfl, h⟩
    · simp
  | b₁ :: B₁, b₂ :: B₂ =>
    obtain ⟨a, r1, hr1, ha⟩ := exists_head b₁ B₁
    obtain ⟨b, r2, hr2, hb⟩ := exists_head b₂ B₂
    have hpass := sweepBand_spec hops h ha hb
    have hmin : min a.bottom b.bottom = min b₁.bottom b₂.bottom := by rw [ha.2, hb.2]
    have hskip₁ := skipBand_rectsOf (min b₁.bottom b₂.bottom) h.banded1 ha.2
    have hskip₂ := skipBand_rectsOf (min b₁.bottom b₂.bottom) h.banded2 hb.2
    rw [hr1, hr2] at hpass ⊢
    rw [hr1] at hskip₁
    rw [hr2] at hskip₂
    rw [sweep, hmin, hskip₁, hskip₂]
    refine hpass.bind ?_
    rintro ⟨reg', prev'⟩ ⟨D', h'⟩
    exact sweep_spec hops _ _ D' _ reg' prev' h'
termination_by B₁.length + B₂.length
decreasing_by exact length_skip_lt b₁ b₂ B₁ B₂

/-! ### The end of the sweep -/

theorem drain_cons {f : NonOverlapFunc} {b : Band ℤ} {E : List (Band ℤ)} (hE : Banded (b :: E))
    (ybot : ℤ) (reg : WINEREGION) :
    drain f (rectsOf (b :: E)) ybot reg =
      (f reg (bandRects b) (max b.top ybot) b.bottom).bind fun reg =>
        drain f (rectsOf E) ybot reg := by
  obtain ⟨a, r, har, ha⟩ := exists_head b E
  obtain ⟨htop, hafter⟩ := topBand_rectsOf (top_ne_of_banded hE)
  rw [har] at htop hafter ⊢
  rw [drain, htop, hafter, ha.1, ha.2]

theorem drain_spec {E : List (Band ℤ)} {ybot : ℤ} (hE : Banded E) (htop : ∀ b ∈ E, ybot ≤ b.top)
    (reg : WINEREGION) :
    Yields (fun reg' => reg'.rects = reg.rects ++ rectsOf E) Overflows
      (drain addRects (rectsOf E) ybot reg) := by
  induction E generalizing reg with
  | nil =>
    rw [rectsOf_nil, drain]
    exact Yields.ok (List.append_nil _).symm
  | cons b E ih =>
    rw [drain_cons hE, max_eq_left (htop b List.mem_cons_self)]
    refine (addRects_spec reg (bandRects b) b.top b.bottom).bind fun reg₁ h₁ => ?_
    refine (ih hE.tail (fun c hc => htop c (List.mem_cons_of_mem _ hc)) reg₁).mono fun reg' h => ?_
    rw [h, h₁, sides_bandRects, rectsOf_cons, List.append_assoc]
    rfl

/-- **The bands that one region has left** are added, if the operation keeps them. -/
theorem drainLeft_spec {f : Option NonOverlapFunc} {q : Prop → Prop} (hf : NonOverlapSpec f q)
    {C D : List (Band ℤ)} {reg : WINEREGION} {prevBand : ℕ} {ybot : ℤ} (hC : Banded C)
    (hbelow : ∀ b ∈ C, ybot < b.bottom) (hB : Built D reg prevBand)
    (habove : ∀ d ∈ D, d.bottom ≤ ybot) :
    Yields (fun reg' => ∃ F, Banded F ∧
        (coalesceAdded reg' prevBand reg.numRects).1.rects = rectsOf F ∧
        ∀ x y, CoversIn F x y ↔ CoversIn D x y ∨ ybot ≤ y ∧ q (CoversIn C x y)) Overflows
      (drainLeft f (rectsOf C) ybot reg) := by
  -- nothing is added
  have hsame : (∀ x y, ¬ (ybot ≤ y ∧ q (CoversIn C x y))) → ∃ F, Banded F ∧
      (coalesceAdded reg prevBand reg.numRects).1.rects = rectsOf F ∧
      ∀ x y, CoversIn F x y ↔ CoversIn D x y ∨ ybot ≤ y ∧ q (CoversIn C x y) := by
    intro hno
    rw [coalesceAdded, if_neg (not_not.2 rfl)]
    exact ⟨D, hB.banded, hB.rects, fun x y => (or_iff_left (hno x y)).symm⟩
  rcases hf with ⟨rfl, hq⟩ | ⟨rfl, hq⟩
  · cases C with
    | nil =>
      rw [drainLeft, rectsOf_nil, drain]
      exact Yields.ok (hsame fun x y h => not_coversIn_nil x y ((hq _).1 h.2))
    | cons b E =>
      have hbot : ybot < b.bottom := hbelow b List.mem_cons_self
      have hE : ∀ c ∈ E, ybot ≤ c.top := fun c hc => hbot.le.trans (hC.bottom_le hc)
      have hclip : Banded (b.clip ybot hbot :: E) := by
        cases E with
        | nil => exact List.isChain_singleton _
        | cons c E =>
          obtain ⟨hbc, hE⟩ := List.isChain_cons_cons.1 hC
          exact List.isChain_cons_cons.2 ⟨hbc, hE⟩
      rw [drainLeft, drain_cons hC]
      refine (addRects_spec reg (bandRects b) (max b.top ybot) b.bottom).bind fun reg₁ h₁ => ?_
      refine (drain_spec hC.tail hE reg₁).mono fun reg' h => ?_
      rw [h₁, hB.rects, sides_bandRects, List.append_assoc] at h
      have hrects : reg'.rects = rectsOf D ++ rectsOf (b.clip ybot hbot :: E) := h
      have hcur : reg.numRects = (rectsOf D).length := congrArg List.length hB.rects
      have hlen : reg'.numRects ≠ (rectsOf D).length := by
        have hpos := List.length_pos_iff.2 (bandRects_ne_nil (b.clip ybot hbot))
        unfold WINEREGION.numRects
        rw [hrects, rectsOf_cons, List.length_append, List.length_append]
        omega
      have hpush := (coalesce_spec hrects (top_ne_of_banded hclip) hB.prevBand).1
      rw [coalesceAdded, hcur, if_pos hlen]
      refine ⟨push D (b.clip ybot hbot) ++ E, ?_, hpush, fun x y => ?_⟩
      · exact hB.banded.push_append
          (fun d hd => (habove d hd).trans (le_max_right _ _)) hclip
      · rw [coversIn_append, coversIn_push, Band.covers_clip, hq, coversIn_cons, or_assoc]
        refine or_congr_right ?_
        constructor
        · rintro (⟨hy, hb⟩ | hxy)
          · exact ⟨hy, .inl hb⟩
          · exact ⟨hbot.le.trans (hC.bottom_le_of_coversIn hxy), .inr hxy⟩
        · rintro ⟨hy, hb | hxy⟩
          · exact .inl ⟨hy, hb⟩
          · exact .inr hxy
  · exact Yields.ok (hsame fun x y h => hq _ h.2)

theorem compact_rects (reg : WINEREGION) : (compact reg).rects = reg.rects := by
  unfold compact
  split_ifs <;> rfl

/-- The end of `REGION_RegionOp` decides the points that are left. -/
theorem finish_spec {op : Prop → Prop → Prop} {target : ℤ → ℤ → Prop} {ops : Callbacks}
    (hops : ops.Spec op) {s : Swept} {C₁ C₂ D : List (Band ℤ)} (h1 : s.r1 = rectsOf C₁)
    (h2 : s.r2 = rectsOf C₂) (hend : C₁ = [] ∨ C₂ = [])
    (h : Sweeping op target C₁ C₂ D s.ybot s.newReg s.prevBand) :
    Yields (fun reg => ∃ F, Banded F ∧ reg.rects = rectsOf F ∧
      ∀ x y, CoversIn F x y ↔ target x y) Overflows (finish ops s) := by
  have hnil : ∀ x y : ℤ, CoversIn [] x y = False := fun x y => eq_false (not_coversIn_nil x y)
  unfold finish
  refine Yields.bind (P := fun reg' => ∃ F, Banded F ∧
    (coalesceAdded reg' s.prevBand s.newReg.numRects).1.rects = rectsOf F ∧
    ∀ x y, CoversIn F x y ↔ target x y) ?_ ?_
  · refine Yields.ite (fun hne => ?_) fun heq => ?_
    · have hC₂ : C₂ = [] := hend.resolve_left fun hC₁ => hne (by rw [h1, hC₁, rectsOf_nil])
      subst hC₂
      rw [h1]
      refine (drainLeft_spec hops.nonOverlap1 h.banded1 h.below1 h.built h.above).mono ?_
      rintro reg' ⟨F, hF, hrects, hpts⟩
      refine ⟨F, hF, hrects, fun x y => ?_⟩
      rw [hpts, h.points, hnil]
    · have hC₁ : C₁ = [] := rectsOf_eq_nil_iff.1 (h1 ▸ not_not.1 heq)
      subst hC₁
      rw [h2]
      refine (drainLeft_spec hops.nonOverlap2 h.banded2 h.below2 h.built h.above).mono ?_
      rintro reg' ⟨F, hF, hrects, hpts⟩
      refine ⟨F, hF, hrects, fun x y => ?_⟩
      rw [hpts, h.points, hnil]
  · rintro reg' ⟨F, hF, hrects, hpts⟩
    exact Yields.ok ⟨F, hF, (compact_rects _).trans hrects, hpts⟩

/-- **What `REGION_RegionOp` makes of two regions** has the points of the operation, in canonical
form.  It fails only if the array to begin with is refused, or a number overflows. -/
theorem opRegion_spec {op : Prop → Prop → Prop} {ops : Callbacks} (hops : ops.Spec op)
    {reg1 reg2 : WINEREGION} {b₁ b₂ : Band ℤ} {B₁ B₂ : List (Band ℤ)} (hB₁ : Banded (b₁ :: B₁))
    (hB₂ : Banded (b₂ :: B₂)) (h1 : reg1.rects = rectsOf (b₁ :: B₁))
    (h2 : reg2.rects = rectsOf (b₂ :: B₂)) (htop₁ : reg1.extents.top = b₁.top)
    (htop₂ : reg2.extents.top = b₂.top) :
    Yields (fun reg => ∃ F, Banded F ∧ reg.rects = rectsOf F ∧ ∀ x y, CoversIn F x y ↔
        op (CoversIn (b₁ :: B₁) x y) (CoversIn (b₂ :: B₂) x y))
      (fun e => Overflows e ∨ e = .refused ∧
        INT_MAX / SIZEOF_RECT < 2 * max reg1.numRects reg2.numRects)
      (opRegion ops reg1 reg2) := by
  unfold opRegion
  refine Yields.bind (P := fun n => n = 2 * max reg1.numRects reg2.numRects) ?_ ?_
  · unfold twice
    refine Yields.ite (fun _ => Yields.ok rfl) fun hmax => Yields.error (.inl ⟨_, rfl, ?_⟩)
    unfold INT_MAX at hmax
    omega
  rintro n rfl
  refine Yields.bind (P := fun reg => reg.rects = []) ?_ fun newReg hnew => ?_
  · refine Yields.ite (fun hmax => Yields.error (.inr ⟨rfl, ?_⟩)) fun _ => Yields.ok rfl
    obtain ⟨hfour, hmax⟩ := hmax
    rcases max_choice (2 * max reg1.numRects reg2.numRects) RGN_DEFAULT_RECTS with heq | heq
    · rw [heq] at hmax
      exact hmax
    · rw [heq] at hfour
      exact absurd hfour (lt_irrefl _)
  -- every point is below the top of one of the regions
  have hbot : ∀ {b : Band ℤ} {B : List (Band ℤ)} {y : ℤ}, Banded (b :: B) → y ≤ b.top →
      ∀ c ∈ b :: B, y < c.bottom := by
    intro b B y hB hy c hc
    rcases List.mem_cons.1 hc with rfl | hc
    · exact hy.trans_lt c.top_lt
    · exact ((hy.trans b.top_lt.le).trans (hB.bottom_le hc)).trans_lt c.top_lt
  have htop : ∀ {b : Band ℤ} {B : List (Band ℤ)}, Banded (b :: B) →
      ∀ c ∈ b :: B, b.top ≤ c.top := by
    intro b B hB c hc
    rcases List.mem_cons.1 hc with rfl | hc
    · exact le_rfl
    · exact b.top_lt.le.trans (hB.bottom_le hc)
  have hybot : (if reg1.extents.top < reg2.extents.top then reg1.extents.top
      else reg2.extents.top) = min b₁.top b₂.top := by
    rw [htop₁, htop₂]
    split_ifs <;> omega
  have hstart : Sweeping op (fun x y => op (CoversIn (b₁ :: B₁) x y) (CoversIn (b₂ :: B₂) x y))
      (b₁ :: B₁) (b₂ :: B₂) [] (min b₁.top b₂.top) newReg 0 :=
    { banded1 := hB₁
      banded2 := hB₂
      below1 := hbot hB₁ (min_le_left _ _)
      below2 := hbot hB₂ (min_le_right _ _)
      ended := .inl fun c hc => (min_le_left _ _).trans (htop hB₁ c hc)
      built := ⟨Banded.nil, hnew, rfl⟩
      above := fun d hd => absurd hd List.not_mem_nil
      points := fun x y => by
        rw [or_iff_right (not_coversIn_nil x y)]
        refine ⟨fun hxy => ⟨?_, hxy⟩, fun hxy => hxy.2⟩
        by_contra hy
        have h₁ : ¬ CoversIn (b₁ :: B₁) x y := fun hc =>
          hy ((min_le_left _ _).trans (hB₁.top_le_of_coversIn hc))
        have h₂ : ¬ CoversIn (b₂ :: B₂) x y := fun hc =>
          hy ((min_le_right _ _).trans (hB₂.top_le_of_coversIn hc))
        rw [eq_false h₁, eq_false h₂] at hxy
        exact hops.nonOverlap1.not_false hxy }
  simp only [hybot, h1, h2]
  refine Yields.imp ?_ (fun _ h => h) fun e (he : Overflows e) => Or.inl he
  refine (sweep_spec hops _ _ [] _ newReg 0 hstart).bind ?_
  rintro s ⟨C₁, C₂, D, hr1, hr2, hend, hs⟩
  exact finish_spec hops hr1 hr2 hend hs

end Region

end Swinx
