import Swinx.Region.Moves

/-!
# `CreateRoundRectRgn`

The rows of the ellipse become rectangles of the region as they are, also where two rows that touch
have the same sides.  So the region is in canonical form only if they never do.

* `ellipseRows_spec` — the row in the middle is as wide as the rectangle, and no row is wider.
* `createRoundRectRgn_wellFormed` — the region, if its rows taper.
-/

namespace Swinx

namespace Region

open Function (update update_of_ne update_self)

open Bands

/-! ### The outline -/

/-- What the loop keeps: the row in the middle begins at the side, and no row begins beyond it. -/
structure Outline.Inside (y₀ : ℕ) (s : Outline) : Prop where
  x_nonneg : 0 ≤ s.x
  le_y : y₀ ≤ s.y
  middle : s.rows y₀ = some 0
  nonneg : ∀ i x, s.rows i = some x → 0 ≤ x

theorem outlineX_inside {bsq e2 : ℤ} {y₀ : ℕ} {s s' : Outline} (h : s.Inside y₀)
    (hs : outlineX bsq e2 s = some s') : s'.Inside y₀ := by
  unfold outlineX at hs
  split_ifs at hs
  · simp only [Option.bind_eq_bind, Option.bind_eq_some_iff] at hs
    obtain ⟨dx, -, err, -, hs⟩ := hs
    cases hs
    have hx := h.x_nonneg
    exact ⟨show 0 ≤ s.x + 1 by omega, h.le_y, h.middle, h.nonneg⟩
  · exact Option.some.inj hs ▸ h

theorem outlineY_inside {size : ℕ} {asq e2 : ℤ} {y₀ : ℕ} {s s' : Outline} (h : s.Inside y₀)
    (hs : outlineY size asq e2 s = some s') : s'.Inside y₀ := by
  unfold outlineY at hs
  by_cases he : e2 ≤ s.dy
  · simp only [if_pos he, Option.bind_eq_bind, Option.bind_eq_some_iff] at hs
    obtain ⟨dy, -, err, -, hs⟩ := hs
    split_ifs at hs
    cases hs
    have hle := h.le_y
    refine ⟨h.x_nonneg, hle.trans (Nat.le_succ _), ?_, fun i x hi => ?_⟩
    · show update s.rows (s.y + 1) (some s.x) y₀ = some 0
      rw [update_of_ne (by omega)]
      exact h.middle
    · have hi : update s.rows (s.y + 1) (some s.x) i = some x := hi
      by_cases hy : i = s.y + 1
      · rw [hy, update_self] at hi
        exact Option.some.inj hi ▸ h.x_nonneg
      · rw [update_of_ne hy] at hi
        exact h.nonneg i x hi
  · rw [if_neg he] at hs
    exact Option.some.inj hs ▸ h

theorem outlineStep_inside {size : ℕ} {asq bsq : ℤ} {y₀ : ℕ} {s s' : Outline}
    (h : s.Inside y₀) (hs : outlineStep size asq bsq s = some s') : s'.Inside y₀ := by
  simp only [outlineStep, Option.bind_eq_bind, Option.bind_eq_some_iff] at hs
  obtain ⟨e2, -, t, ht, hs⟩ := hs
  exact outlineY_inside (outlineX_inside h ht) hs

theorem outlineLoop_inside {size : ℕ} {half asq bsq : ℤ} {y₀ fuel : ℕ} {s s' : Outline}
    (h : s.Inside y₀) (hs : outlineLoop size half asq bsq fuel s = some s') : s'.Inside y₀ := by
  induction fuel generalizing s with
  | zero => cases hs
  | succ fuel ih =>
    unfold outlineLoop at hs
    split_ifs at hs
    · obtain ⟨t, ht, hs⟩ := Option.bind_eq_some_iff.1 hs
      exact ih (outlineStep_inside h ht) hs
    · exact Option.some.inj hs ▸ h

/-- **The row in the middle is as wide as the rectangle, and no row is wider.** -/
theorem ellipseRows_spec {width height : ℤ} {rows : ℕ → Option ℤ}
    (h : ellipseRows width height = some rows) :
    rows (height / 2).toNat = some 0 ∧ ∀ i x, rows i = some x → 0 ≤ x := by
  simp only [ellipseRows, Option.bind_eq_bind, Option.bind_eq_some_iff] at h
  obtain ⟨asq, -, bsq, -, dx, -, dy, -, odd, -, err, -, err', -, s, hs, hrows⟩ := h
  cases hrows
  have hinit : Outline.Inside (height / 2).toNat ⟨0, (height / 2).toNat, dx, dy, err',
      update (fun _ => none) (height / 2).toNat (some 0)⟩ := by
    refine ⟨le_rfl, le_rfl, ?_, fun i x hi => ?_⟩
    · show update (fun _ => none) (height / 2).toNat (some 0) (height / 2).toNat = some 0
      rw [update_self]
    have hi : update (fun _ => none) (height / 2).toNat (some 0) i = some x := hi
    by_cases hy : i = (height / 2).toNat
    · rw [hy, update_self] at hi
      exact (Option.some.inj hi).le
    · rw [update_of_ne hy] at hi
      cases hi
  have hinside := outlineLoop_inside hinit hs
  exact ⟨hinside.middle, hinside.nonneg⟩

/-! ### The region -/

/-- **The rows taper**: their number is odd, and those of the lower half are all written and not
empty in a rectangle of the given width, and each differs from the next one. -/
def rowsTaper (rows : ℕ → Option ℤ) (height : ℕ) (width : ℤ) : Prop :=
  height % 2 = 1 ∧ ∀ i < height, height / 2 ≤ i →
    (rows i).any (fun x => decide (2 * x < width)) ∧ (i + 1 < height → rows i ≠ rows (i + 1))

instance decidableRowsTaper (rows : ℕ → Option ℤ) (height : ℕ) (width : ℤ) :
    Decidable (rowsTaper rows height width) :=
  inferInstanceAs (Decidable (_ ∧ _))

/-- The call makes a rectangle, or the rows of its ellipse taper. -/
def tapers (left top right bottom ellipse_width ellipse_height : ℤ) : Bool :=
  let x := ordered left right
  let y := ordered top bottom
  match ellipseSize x.1 y.1 (x.2 - 1) (y.2 - 1) ellipse_width ellipse_height with
  | some (w, h) =>
    w < 2 || h < 2 ||
      match ellipseRows w h with
      | some rows => decide (rowsTaper rows h.toNat (x.2 - 1 - x.1))
      | none => true
  | none => true

section Rows

variable {junk : ℕ → RECT} {rows : ℕ → Option ℤ} {left top right bottom : ℤ} {height : ℕ}

/-- The row of the lower half that the rectangle `i` is made of. -/
def lowerRow (height i : ℕ) : ℕ := if i < height / 2 then height - 1 - i else i

/-- The top of the rectangle `i`. -/
def rowTop (top bottom : ℤ) (height i : ℕ) : ℤ :=
  if i ≤ height / 2 then top + i else bottom - height + i

/-- The bottom of the rectangle `i`. -/
def rowBottom (top bottom : ℤ) (height i : ℕ) : ℤ :=
  if i < height / 2 then top + i + 1 else bottom - height + i + 1

theorem roundRect_eq {i : ℕ} {x : ℤ} (hx : rows (lowerRow height i) = some x) :
    roundRect junk rows left top right bottom height i =
      ⟨left + x, rowTop top bottom height i, right - x, rowBottom top bottom height i⟩ := by
  unfold lowerRow at hx
  unfold roundRect rowTop rowBottom roundRow
  by_cases hi : i < height / 2
  · rw [if_pos hi] at hx
    simp [if_pos hi, hx, hi.le]
  · rw [if_neg hi] at hx
    by_cases heq : i = height / 2
    · subst heq
      simp [hx]
    · simp [hi, hx, heq, show ¬ i ≤ height / 2 by omega]

/-- The rows that the rectangles are made of, in a region whose rows taper. -/
theorem exists_row (htaper : rowsTaper rows height (right - left)) {i : ℕ} (hi : i < height) :
    ∃ x, rows (lowerRow height i) = some x ∧ 2 * x < right - left := by
  have hlower : lowerRow height i < height ∧ height / 2 ≤ lowerRow height i := by
    have := htaper.1
    unfold lowerRow
    split_ifs <;> omega
  obtain ⟨hany, -⟩ := htaper.2 _ hlower.1 hlower.2
  cases hrow : rows (lowerRow height i) with
  | none => simp [hrow] at hany
  | some x => exact ⟨x, rfl, by simpa [hrow] using hany⟩

/-- Two rectangles that follow each other are made of rows that differ. -/
theorem row_ne (htaper : rowsTaper rows height (right - left)) {i : ℕ} (hi : i + 1 < height) :
    rows (lowerRow height i) ≠ rows (lowerRow height (i + 1)) := by
  have hodd := htaper.1
  unfold lowerRow
  by_cases hlt : i + 1 < height / 2
  · rw [if_pos (by omega), if_pos hlt]
    have := (htaper.2 (height - 1 - (i + 1)) (by omega) (by omega)).2 (by omega)
    rw [show height - 1 - (i + 1) + 1 = height - 1 - i by omega] at this
    exact this.symm
  · by_cases heq : i + 1 = height / 2
    · rw [if_pos (by omega), if_neg hlt]
      have := (htaper.2 (i + 1) (by omega) heq.ge).2 (by omega)
      rw [show i + 1 + 1 = height - 1 - i by omega] at this
      exact this.symm
    · rw [if_neg (by omega), if_neg hlt]
      exact (htaper.2 i (by omega) (by omega)).2 hi

/-- The band of the rectangle `i`. -/
def rowBand (left right : ℤ) (x : ℤ) (top bottom : ℤ) (hx : 2 * x < right - left)
    (hy : top < bottom) : Band ℤ :=
  ⟨top, bottom, [(left + x, right - x)], hy, by simp, separated_singleton (by simp only; omega)⟩

theorem rowTop_lt_rowBottom {top bottom : ℤ} {height : ℕ}
    (hheight : (height : ℤ) ≤ bottom - top) (i : ℕ) :
    rowTop top bottom height i < rowBottom top bottom height i := by
  unfold rowTop rowBottom
  split_ifs <;> omega

theorem rowBottom_eq_rowTop (i : ℕ) :
    rowBottom top bottom height i = rowTop top bottom height (i + 1) := by
  unfold rowTop rowBottom
  split_ifs <;> push_cast <;> omega

theorem exists_rowBands (junk : ℕ → RECT) (htaper : rowsTaper rows height (right - left))
    (hheight : (height : ℤ) ≤ bottom - top) (n i : ℕ) (hn : i + n = height) :
    ∃ D, Banded D ∧
      (List.range' i n).map (roundRect junk rows left top right bottom height) = rectsOf D ∧
      ∀ b ∈ D.head?, ∃ x, rows (lowerRow height i) = some x ∧
        b.spans = [(left + x, right - x)] ∧ b.top = rowTop top bottom height i := by
  induction n generalizing i with
  | zero => exact ⟨[], Banded.nil, rfl, by simp⟩
  | succ n ih =>
    obtain ⟨D, hD, hrects, hhead⟩ := ih (i + 1) (by omega)
    obtain ⟨x, hx, hlt⟩ := exists_row htaper (i := i) (by omega)
    let b := rowBand left right x _ _ hlt (rowTop_lt_rowBottom hheight i)
    refine ⟨b :: D, ?_, ?_, ?_⟩
    · cases D with
      | nil => exact List.isChain_singleton _
      | cons c D =>
        refine List.isChain_cons_cons.2 ⟨?_, hD⟩
        obtain ⟨x', hx', hspans, htop⟩ := hhead c rfl
        refine ⟨?_, fun _ hs => ?_⟩
        · rw [htop, ← rowBottom_eq_rowTop]
          exact le_rfl
        · -- the next row has other sides
          rw [hspans] at hs
          have hs : left + x = left + x' := (Prod.ext_iff.1 (List.singleton_inj.1 hs)).1
          have hlast : i + 1 < height := by
            by_contra hge
            have : n = 0 := by omega
            subst this
            exact absurd hrects.symm (fun h => List.cons_ne_nil c D (rectsOf_eq_nil_iff.1 h))
          exact row_ne htaper hlast (by rw [hx, hx', add_left_cancel hs])
    · rw [List.range'_succ, List.map_cons, rectsOf_cons, hrects, roundRect_eq hx]
      rfl
    · rintro b' hb'
      cases hb'
      exact ⟨x, hx, rfl, rfl⟩

/-- **The region of rows that taper is in canonical form, with its bounding box.** -/
theorem roundRegion_wellFormed (htaper : rowsTaper rows height (right - left))
    (hheight : (height : ℤ) ≤ bottom - top) (htwo : 2 ≤ height)
    (hmiddle : rows (height / 2) = some 0) (hrows : ∀ i x, rows i = some x → 0 ≤ x) :
    (roundRegion junk rows left top right bottom height).WellFormed := by
  obtain ⟨D, hD, hrects, -⟩ := exists_rowBands junk htaper hheight height 0 (by omega)
  rw [← List.range_eq_range'] at hrects
  have hmem : ∀ r ∈ (roundRegion junk rows left top right bottom height).rects,
      ∃ i < height, ∃ x, 0 ≤ x ∧
        r = ⟨left + x, rowTop top bottom height i, right - x, rowBottom top bottom height i⟩ := by
    intro r hr
    obtain ⟨i, hi, rfl⟩ := List.mem_map.1 hr
    obtain ⟨x, hx, -⟩ := exists_row htaper (List.mem_range.1 hi)
    exact ⟨i, List.mem_range.1 hi, x, hrows _ x hx, roundRect_eq hx⟩
  -- the points of the rectangle `i`
  have hpoint : ∀ {i : ℕ} {x u v : ℤ}, i < height → rows (lowerRow height i) = some x →
      left + x ≤ u ∧ u < right - x →
      rowTop top bottom height i ≤ v ∧ v < rowBottom top bottom height i →
      (roundRegion junk rows left top right bottom height).Covers u v := by
    intro i x u v hi hx hu hv
    exact ⟨_, List.mem_map.2 ⟨i, List.mem_range.2 hi, roundRect_eq hx⟩, hu, hv⟩
  have hwidth : left < right := by
    obtain ⟨x, hx, hlt⟩ := exists_row htaper (i := 0) (by omega)
    have := hrows _ x hx
    omega
  have hmid : rows (lowerRow height (height / 2)) = some 0 := by
    unfold lowerRow
    rw [if_neg (lt_irrefl _)]
    exact hmiddle
  have hrow := rowTop_lt_rowBottom hheight (height / 2)
  refine ⟨⟨D, hD, hrects⟩, fun hnil => ?_, fun _ => ⟨⟨?_, ?_⟩, ⟨?_, ?_⟩, ⟨fun u v huv => ?_,
    fun r hr => ?_⟩, ⟨fun u v huv => ?_, fun b hb => ?_⟩⟩⟩
  · exact absurd (List.map_eq_nil_iff.1 hnil) (by rw [List.range_eq_nil]; omega)
  · exact ⟨_, hpoint (by omega) hmid ⟨by simp only [add_zero]; exact le_rfl,
      by simp only [sub_zero]; exact hwidth⟩ ⟨le_rfl, hrow⟩⟩
  · rintro u ⟨v, r, hr, hu, -⟩
    obtain ⟨i, -, x, hx, rfl⟩ := hmem r hr
    show left ≤ u
    simp only at hu
    omega
  · obtain ⟨x, hx, hlt⟩ := exists_row htaper (i := 0) (by omega)
    have hx0 := hrows _ x hx
    refine ⟨left + x, hpoint (i := 0) (by omega) hx ⟨le_rfl, by omega⟩ ?_⟩
    unfold rowTop rowBottom
    rw [if_pos (by omega), if_pos (by omega)]
    show top + ((0 : ℕ) : ℤ) ≤ top ∧ top < _
    push_cast
    omega
  · rintro v ⟨u, r, hr, -, hv⟩
    obtain ⟨i, hi, x, -, rfl⟩ := hmem r hr
    show top ≤ v
    simp only [rowTop] at hv
    split_ifs at hv <;> omega
  · obtain ⟨r, hr, hu, -⟩ := huv
    obtain ⟨i, -, x, hx, rfl⟩ := hmem r hr
    show u < right
    simp only at hu
    omega
  · have := hr (right - 1) _ (hpoint (by omega) hmid ⟨by omega, by omega⟩ ⟨le_rfl, hrow⟩)
    show right ≤ r
    omega
  · obtain ⟨r, hr, -, hv⟩ := huv
    obtain ⟨i, hi, x, -, rfl⟩ := hmem r hr
    show v < bottom
    simp only [rowBottom] at hv
    split_ifs at hv <;> omega
  · obtain ⟨x, hx, hlt⟩ := exists_row htaper (i := height - 1) (by omega)
    have hx0 := hrows _ x hx
    have := hb (left + x) (bottom - 1) (hpoint (i := height - 1) (by omega) hx
      ⟨le_rfl, by omega⟩ (by
        unfold rowTop rowBottom
        split_ifs <;> omega))
    show bottom ≤ b
    omega

end Rows

theorem eq_of_int {n k : ℤ} (h : int n = some k) : k = n := by
  unfold int signed at h
  split_ifs at h
  exact (Option.some.inj h).symm

/-- **`CreateRoundRectRgn` makes a region in canonical form if its rows taper.** -/
theorem createRoundRectRgn_wellFormed {junk : ℕ → RECT} {left top right bottom ew eh : ℤ}
    {rgn : WINEREGION} (htaper : tapers left top right bottom ew eh = true)
    (h : createRoundRectRgn junk left top right bottom ew eh = some (some rgn)) :
    rgn.WellFormed := by
  simp only [createRoundRectRgn, Option.bind_eq_bind, Option.bind_eq_some_iff] at h
  obtain ⟨r, hr, b, hb, size, hsize, h⟩ := h
  obtain rfl := eq_of_int hr
  obtain rfl := eq_of_int hb
  split_ifs at h with hsmall
  · cases h
    exact setRectRgn_wellFormed _ _ _ _ _
  · split at h
    · simp only [Option.bind_eq_some_iff] at h
      obtain ⟨rows, hrows, h⟩ := h
      cases h
      obtain ⟨w, hh⟩ := size
      obtain ⟨hw2, hh2⟩ := not_or.1 hsmall
      simp only [tapers, hsize, hrows] at htaper
      have htaper : rowsTaper rows hh.toNat
          ((ordered left right).2 - 1 - (ordered left right).1) := by
        simpa [hw2, hh2] using htaper
      obtain ⟨hmiddle, hnonneg⟩ := ellipseRows_spec hrows
      -- the ellipse is not higher than the rectangle
      simp only [ellipseSize, Option.bind_eq_bind, Option.bind_eq_some_iff] at hsize
      obtain ⟨w', -, h', hh', ew', -, eh', -, hsize⟩ := hsize
      obtain rfl := eq_of_int hh'
      simp only [Option.some.injEq, Prod.mk.injEq] at hsize
      have hle := hsize.2 ▸ min_le_left ((ordered top bottom).2 - 1 - (ordered top bottom).1) eh'
      simp only at hh2 hmiddle
      refine roundRegion_wellFormed htaper (by omega) (by omega) ?_ hnonneg
      rw [← hmiddle]
      congr 1
      omega
    · cases h

end Region

end Swinx
