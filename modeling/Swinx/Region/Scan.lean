import Swinx.Region.Moves
import Swinx.Region.Polygon

/-!
# `scan_convert`

On each scanline the edges of a closed polygon come in pairs, from left to right: by the even-odd
rule as they are, by the winding rule those at which the winding number becomes 0 or ceases to be
0.  The rectangles between them are a band, which `REGION_Coalesce` merges with the last one.  By
the winding rule a rectangle may end where the next one begins, and then the region is not in
canonical form.

* `createEdgeTable_spec` — the edges of a polygon go around no point of a scanline altogether.
* `scanLine_valid` — one scanline.
* `createPolypolygonRegion_tight` — the region, if the intervals are apart.
-/

namespace Swinx

namespace Region

open Bands

/-! ### The rectangles of a scanline -/

/-- The intervals between the pairs of crossings, without those that are empty. -/
def spans : List ℤ → List (ℤ × ℤ)
  | a :: b :: xs => if a ≠ b then (a, b) :: spans xs else spans xs
  | _ => []

/-- No interval ends where the next one begins. -/
def Apart (l : List (ℤ × ℤ)) : Prop := l.IsChain fun s t => s.2 ≠ t.1

instance decidableApart (l : List (ℤ × ℤ)) : Decidable (Apart l) :=
  inferInstanceAs (Decidable (List.IsChain _ l))

/-- The first interval of a sorted list does not begin before a lower bound. -/
theorem le_head_spans {xs : List ℤ} {a : ℤ} (ha : ∀ b ∈ xs, a ≤ b) {s : ℤ × ℤ}
    (hs : s ∈ spans xs) : a ≤ s.1 := by
  induction xs using List.twoStepInduction with
  | nil => cases hs
  | singleton b => cases hs
  | cons_cons b c xs ih _ =>
    have ih := ih fun d hd => ha d (by simp [hd])
    simp only [spans] at hs
    split_ifs at hs
    · rcases List.mem_cons.1 hs with rfl | hs
      · exact ha _ (by simp)
      · exact ih hs
    · exact ih hs

/-- **Sorted crossings make intervals in canonical form, if these are apart.** -/
theorem separated_spans {xs : List ℤ} (hxs : xs.Pairwise (· ≤ ·)) (hap : Apart (spans xs)) :
    Separated (spans xs) := by
  induction xs using List.twoStepInduction with
  | nil => exact separated_nil
  | singleton a => exact separated_nil
  | cons_cons a b xs ih _ =>
    obtain ⟨ha, hrest⟩ := List.pairwise_cons.1 hxs
    obtain ⟨hb, hrest⟩ := List.pairwise_cons.1 hrest
    have hle : a ≤ b := ha b (by simp)
    simp only [spans] at hap ⊢
    split_ifs at hap ⊢ with hab
    · have hsep := ih hrest (List.IsChain.tail hap)
      refine separated_cons_iff.2 ⟨lt_of_le_of_ne hle hab, fun x hx => ?_, hsep⟩
      cases hspans : spans xs with
      | nil =>
        rw [hspans] at hx
        exact absurd hx (not_covers_nil x)
      | cons s l =>
        rw [hspans] at hap hx hsep
        have hne : b ≠ s.1 := (List.isChain_cons_cons.1 hap).1
        have hbs : b ≤ s.1 := le_head_spans hb (by rw [hspans]; exact List.mem_cons_self)
        exact (lt_of_le_of_ne hbs hne).trans_le (hsep.le_of_covers hx)
    · exact ih hrest hap

section Rows

variable {base : List RECT} {y : ℤ} {obj : WINEREGION} {row : Row}

theorem endRect_spec {r : RECT} {obj' : WINEREGION} (h : endRect obj r = some obj') :
    obj'.rects = obj.rects ++ [r] := by
  unfold endRect at h
  split_ifs at h
  cases h
  rfl

theorem beginRect_spec {left : ℤ} (h : beginRect obj left y = some row) :
    row = (obj, some (left, y)) := by
  unfold beginRect at h
  split_ifs at h
  exact (Option.some.inj h).symm

/-- **A pair of crossings by the even-odd rule**: the rectangle between them is added, or the last
one is made wider. -/
theorem alternateEdge_spec (hbase : ∀ s ∈ base, s.top ≠ y) {out : List (ℤ × ℤ)} {a b : ℤ}
    (hM : Merged base y (y + 1) out obj) (hle : ∀ t ∈ out, t.2 ≤ a) (hab : a ≤ b)
    (h : alternateEdge y (obj, some (a, y)) b = some row) :
    row.2 = none ∧ ∃ out', Merged base y (y + 1) out' row.1 ∧ ∀ t ∈ out', t.2 ≤ b := by
  obtain ⟨hsep, hrects⟩ := hM
  simp only [alternateEdge] at h
  split_ifs at h with hne htouch
  · -- the last rectangle ends here
    cases h
    have hlt : a < b := lt_of_le_of_ne hab hne
    refine ⟨rfl, ?_⟩
    rcases List.eq_nil_or_concat' out with rfl | ⟨out, c, rfl⟩
    · rw [List.map_nil, List.append_nil] at hrects
      unfold touchesLast at htouch
      split at htouch
      · next last hlast =>
        rw [Bool.and_eq_true, beq_iff_eq] at htouch
        exact absurd htouch.1 (hbase last (List.mem_of_getLast? (hrects ▸ hlast)))
      · cases htouch
    · rw [List.map_append, ← List.append_assoc] at hrects
      have hlast : obj.rects.getLast? = some (toRect y (y + 1) c) := by
        rw [hrects]
        exact List.getLast?_concat
      have hc : c.1 < c.2 := hsep.lt c (by simp)
      have hca := hle c (by simp)
      refine ⟨out ++ [(c.1, b)], ⟨hsep.concat_of_fst_eq rfl (show c.1 < b by omega), ?_⟩,
        fun t ht => ?_⟩
      · show widenLast obj.rects b = _
        rw [hrects, List.map_cons, List.map_nil, widenLast_concat, List.map_append,
          List.append_assoc]
        rfl
      · rcases List.mem_append.1 ht with ht | ht
        · exact (hle t (List.mem_append_left _ ht)).trans hab
        · rw [List.mem_singleton.1 ht]
  · -- a rectangle is added
    obtain ⟨obj', hobj', rfl⟩ := Option.map_eq_some_iff.1 h
    have hlt : a < b := lt_of_le_of_ne hab hne
    refine ⟨rfl, out ++ [(a, b)], ⟨?_, ?_⟩, fun t ht => ?_⟩
    · rcases List.eq_nil_or_concat' out with rfl | ⟨out, c, rfl⟩
      · exact separated_singleton hlt
      · refine hsep.concat (lt_of_le_of_ne (hle c (by simp)) fun hca => htouch ?_) hlt
        rw [List.map_append, ← List.append_assoc] at hrects
        have hlast : obj.rects.getLast? = some (toRect y (y + 1) c) := by
          rw [hrects]
          exact List.getLast?_concat
        unfold touchesLast
        rw [hlast]
        simp [toRect, hca]
    · rw [endRect_spec hobj', hrects, List.map_append, List.append_assoc]
      rfl
    · rcases List.mem_append.1 ht with ht | ht
      · exact (hle t ht).trans hab
      · rw [List.mem_singleton.1 ht]
  · cases h
    exact ⟨rfl, out, ⟨hsep, hrects⟩, fun t ht => (hle t ht).trans hab⟩

/-- **A scanline by the even-odd rule.** -/
theorem alternateRow_spec (hbase : ∀ s ∈ base, s.top ≠ y) (xs : List ℤ) (obj : WINEREGION)
    (out : List (ℤ × ℤ)) (hM : Merged base y (y + 1) out obj) (hle : ∀ t ∈ out, ∀ x ∈ xs, t.2 ≤ x)
    (hxs : xs.Pairwise (· ≤ ·)) (heven : xs.length % 2 = 0)
    (h : xs.foldlM (alternateEdge y) (obj, none) = some row) :
    row.2 = none ∧ ∃ out', Merged base y (y + 1) out' row.1 := by
  induction xs using List.twoStepInduction generalizing obj out with
  | nil =>
    cases h
    exact ⟨rfl, out, hM⟩
  | singleton a => simp at heven
  | cons_cons a b xs ih _ =>
    obtain ⟨ha, hrest⟩ := List.pairwise_cons.1 hxs
    obtain ⟨hb, hrest⟩ := List.pairwise_cons.1 hrest
    rw [List.foldlM_cons, Option.bind_eq_bind, Option.bind_eq_some_iff] at h
    obtain ⟨row₁, h₁, h⟩ := h
    obtain rfl := beginRect_spec h₁
    rw [List.foldlM_cons, Option.bind_eq_bind, Option.bind_eq_some_iff] at h
    obtain ⟨⟨obj₂, slot⟩, h₂, h⟩ := h
    obtain ⟨hslot, out₂, hM₂, hle₂⟩ :=
      alternateEdge_spec hbase hM (fun t ht => hle t ht a (by simp)) (ha b (by simp)) h₂
    obtain rfl : slot = none := hslot
    exact ih obj₂ out₂ hM₂ (fun t ht x hx => (hle₂ t ht).trans (hb x hx)) hrest
      (by simp only [List.length_cons] at heven; omega) h

/-- **A scanline by the winding rule.** -/
theorem windingRow_spec (xs : List ℤ) (obj : WINEREGION) (heven : xs.length % 2 = 0)
    (h : xs.foldlM (windingEdge y) (obj, none) = some row) :
    row.2 = none ∧ row.1.rects = obj.rects ++ (spans xs).map (toRect y (y + 1)) := by
  induction xs using List.twoStepInduction generalizing obj with
  | nil =>
    cases h
    exact ⟨rfl, (List.append_nil _).symm⟩
  | singleton a => simp at heven
  | cons_cons a b xs ih _ =>
    rw [List.foldlM_cons, Option.bind_eq_bind, Option.bind_eq_some_iff] at h
    obtain ⟨row₁, h₁, h⟩ := h
    obtain rfl := beginRect_spec h₁
    rw [List.foldlM_cons, Option.bind_eq_bind, Option.bind_eq_some_iff] at h
    obtain ⟨row₂, h₂, h⟩ := h
    have heven : xs.length % 2 = 0 := by
      simp only [List.length_cons] at heven
      omega
    simp only [windingEdge] at h₂
    simp only [spans]
    split_ifs at h₂ ⊢ with hne
    · obtain ⟨obj', hobj', rfl⟩ := Option.map_eq_some_iff.1 h₂
      obtain ⟨hslot, hrects⟩ := ih obj' heven h
      refine ⟨hslot, ?_⟩
      rw [hrects, endRect_spec hobj', List.append_assoc]
      rfl
    · cases h₂
      exact ih obj heven h

end Rows

/-! ### The edges of a scanline -/

/-- By how much an edge changes the winding number. -/
def EdgeTableEntry.sign (e : EdgeTableEntry) : ℤ := if e.clockWise then 1 else -1

/-- How often the edges that reach the scanline go around. -/
def windingNumber (y : ℤ) : List EdgeTableEntry → ℤ
  | [] => 0
  | e :: l => (if y ≤ e.ymax then e.sign else 0) + windingNumber y l

/-- How often the edges that wait go around on the scanline. -/
def pendingNumber (y : ℤ) : List (ℤ × List EdgeTableEntry) → ℤ
  | [] => 0
  | p :: l => (if p.1 ≤ y then windingNumber y p.2 else 0) + pendingNumber y l

/-- The edges are sorted by where they cross the scanline. -/
def Sorted (l : List EdgeTableEntry) : Prop := (crossings l).Pairwise (· ≤ ·)

theorem sorted_cons_iff {e : EdgeTableEntry} {l : List EdgeTableEntry} :
    Sorted (e :: l) ↔ (∀ f ∈ l, e.bres.minor_axis ≤ f.bres.minor_axis) ∧ Sorted l := by
  unfold Sorted crossings
  rw [List.map_cons, List.pairwise_cons, List.forall_mem_map]

section Insert

variable {y : ℤ} {e f : EdgeTableEntry} {l : List EdgeTableEntry}

theorem mem_insertEdge : f ∈ insertEdge l e ↔ f = e ∨ f ∈ l := by
  induction l with
  | nil => simp [insertEdge]
  | cons a l ih =>
    simp only [insertEdge]
    split_ifs
    · exact List.mem_cons
    · rw [List.mem_cons, ih, List.mem_cons, or_left_comm]

theorem windingNumber_insertEdge :
    windingNumber y (insertEdge l e) = windingNumber y (e :: l) := by
  induction l with
  | nil => rfl
  | cons a l ih =>
    simp only [insertEdge]
    split_ifs
    · rfl
    · simp only [windingNumber] at ih ⊢
      omega

theorem sorted_insertEdge (h : Sorted l) : Sorted (insertEdge l e) := by
  induction l with
  | nil => exact List.pairwise_singleton _ _
  | cons a l ih =>
    obtain ⟨ha, hl⟩ := sorted_cons_iff.1 h
    simp only [insertEdge]
    split_ifs with hge
    · refine sorted_cons_iff.2 ⟨fun f hf => ?_, h⟩
      rcases List.mem_cons.1 hf with rfl | hf
      · exact hge
      · exact (show e.bres.minor_axis ≤ a.bres.minor_axis from hge).trans (ha f hf)
    · refine sorted_cons_iff.2 ⟨fun f hf => ?_, ih hl⟩
      rcases mem_insertEdge.1 hf with rfl | hf
      · exact (not_le.1 hge).le
      · exact ha f hf

theorem mem_moveEdge : f ∈ moveEdge l e ↔ f = e ∨ f ∈ l := by
  induction l with
  | nil => simp [moveEdge]
  | cons a l ih =>
    simp only [moveEdge]
    split_ifs
    · exact List.mem_cons
    · rw [List.mem_cons, ih, List.mem_cons, or_left_comm]

theorem windingNumber_moveEdge : windingNumber y (moveEdge l e) = windingNumber y (e :: l) := by
  induction l with
  | nil => rfl
  | cons a l ih =>
    simp only [moveEdge]
    split_ifs
    · rfl
    · simp only [windingNumber] at ih ⊢
      omega

theorem sorted_moveEdge (h : Sorted l) : Sorted (moveEdge l e) := by
  induction l with
  | nil => exact List.pairwise_singleton _ _
  | cons a l ih =>
    obtain ⟨ha, hl⟩ := sorted_cons_iff.1 h
    simp only [moveEdge]
    split_ifs with hgt
    · refine sorted_cons_iff.2 ⟨fun f hf => ?_, h⟩
      have hlt : e.bres.minor_axis < a.bres.minor_axis := hgt
      rcases List.mem_cons.1 hf with rfl | hf
      · exact hlt.le
      · exact hlt.le.trans (ha f hf)
    · refine sorted_cons_iff.2 ⟨fun f hf => ?_, ih hl⟩
      rcases mem_moveEdge.1 hf with rfl | hf
      · exact not_lt.1 hgt
      · exact ha f hf

theorem foldl_insert {g : List EdgeTableEntry → EdgeTableEntry → List EdgeTableEntry}
    (hmem : ∀ l e f, f ∈ g l e ↔ f = e ∨ f ∈ l)
    (hnum : ∀ l e, windingNumber y (g l e) = windingNumber y (e :: l))
    (hsort : ∀ l e, Sorted l → Sorted (g l e)) (m : List EdgeTableEntry) (hl : Sorted l) :
    (∀ f, f ∈ m.foldl g l ↔ f ∈ m ∨ f ∈ l) ∧
      windingNumber y (m.foldl g l) = windingNumber y m + windingNumber y l ∧
        Sorted (m.foldl g l) := by
  induction m generalizing l with
  | nil => exact ⟨fun f => by simp, by simp [windingNumber], hl⟩
  | cons e m ih =>
    obtain ⟨hmem', hnum', hsort'⟩ := ih (hsort l e hl)
    refine ⟨fun f => ?_, ?_, hsort'⟩
    · rw [List.foldl_cons, hmem', hmem, List.mem_cons, or_left_comm, or_assoc]
    · rw [List.foldl_cons, hnum', hnum]
      simp only [windingNumber]
      omega

theorem loadAET_spec (y : ℤ) (m : List EdgeTableEntry) (hl : Sorted l) :
    (∀ f, f ∈ loadAET l m ↔ f ∈ m ∨ f ∈ l) ∧
      windingNumber y (loadAET l m) = windingNumber y m + windingNumber y l ∧
        Sorted (loadAET l m) :=
  foldl_insert (fun _ _ _ => mem_insertEdge) (fun _ _ => windingNumber_insertEdge)
    (fun _ _ => sorted_insertEdge) m hl

end Insert

theorem mapM_incrEdge {l l' : List EdgeTableEntry} (h : l.mapM incrEdge = some l') :
    (∀ y, windingNumber y l' = windingNumber y l) ∧ ∀ f ∈ l', ∃ e ∈ l, f.ymax = e.ymax := by
  induction l generalizing l' with
  | nil =>
    cases h
    exact ⟨fun _ => rfl, by simp⟩
  | cons e l ih =>
    simp only [List.mapM_cons, Option.bind_eq_bind, Option.bind_eq_some_iff] at h
    obtain ⟨f, hf, m, hm, h⟩ := h
    cases h
    obtain ⟨bres, -, rfl⟩ := Option.map_eq_some_iff.1 hf
    obtain ⟨hnum, hmem⟩ := ih hm
    refine ⟨fun y => ?_, fun g hg => ?_⟩
    · simp only [windingNumber, hnum]
      rfl
    · rcases List.mem_cons.1 hg with rfl | hg
      · exact ⟨e, List.mem_cons_self, rfl⟩
      · obtain ⟨e', he', heq⟩ := hmem g hg
        exact ⟨e', List.mem_cons_of_mem _ he', heq⟩

/-- Edges that end on a scanline do not matter on the next ones. -/
theorem windingNumber_filter {y y' : ℤ} (hy : y < y') (l : List EdgeTableEntry) :
    windingNumber y' (l.filter fun e => e.ymax ≠ y) = windingNumber y' l := by
  induction l with
  | nil => rfl
  | cons e l ih =>
    by_cases he : e.ymax = y
    · rw [List.filter_cons_of_neg (by simpa using he), ih]
      simp only [windingNumber]
      rw [if_neg (by omega), zero_add]
    · rw [List.filter_cons_of_pos (by simpa using he)]
      simp only [windingNumber, ih]

/-- **`next_scanline`.** -/
theorem nextScanline_spec {AET AET' : List EdgeTableEntry} {y : ℤ}
    (hmax : ∀ e ∈ AET, y ≤ e.ymax) (h : nextScanline AET y = some AET') :
    (∀ y', y < y' → windingNumber y' AET' = windingNumber y' AET) ∧
      (∀ e ∈ AET', y + 1 ≤ e.ymax) ∧ Sorted AET' := by
  obtain ⟨l, hl, rfl⟩ := Option.map_eq_some_iff.1 h
  obtain ⟨hnum, hmem⟩ := mapM_incrEdge hl
  have hfold := fun y' => foldl_insert (y := y') (g := moveEdge) (l := [])
    (fun _ _ _ => mem_moveEdge) (fun _ _ => windingNumber_moveEdge)
    (fun _ _ => sorted_moveEdge) l List.Pairwise.nil
  refine ⟨fun y' hy' => ?_, fun f hf => ?_, (hfold 0).2.2⟩
  · rw [(hfold y').2.1, hnum, windingNumber_filter hy']
    simp [windingNumber]
  · obtain ⟨e, he, heq⟩ := hmem f (((hfold 0).1 f).1 hf |>.resolve_right (by simp))
    obtain ⟨he, hne⟩ := List.mem_filter.1 he
    have := hmax e he
    have hne : e.ymax ≠ y := by simpa using hne
    omega

theorem even_of_windingNumber {y : ℤ} {l : List EdgeTableEntry} (hmax : ∀ e ∈ l, y ≤ e.ymax) :
    (l.length : ℤ) % 2 = windingNumber y l % 2 := by
  induction l with
  | nil => rfl
  | cons e l ih =>
    have ih := ih fun f hf => hmax f (List.mem_cons_of_mem _ hf)
    simp only [windingNumber, if_pos (hmax e List.mem_cons_self), EdgeTableEntry.sign,
      List.length_cons]
    push_cast
    split_ifs <;> omega

/-- The winding edges are paired if the winding number comes back to 0. -/
theorem length_computeWAET {y : ℤ} {l : List EdgeTableEntry} (hmax : ∀ e ∈ l, y ≤ e.ymax)
    (k : ℤ) : (computeWAET (decide (k = 0)) k l).length % 2 = 0 ↔
      (k = 0 ↔ k + windingNumber y l = 0) := by
  induction l generalizing k with
  | nil => simp [computeWAET, windingNumber]
  | cons e l ih =>
    have ih := ih fun f hf => hmax f (List.mem_cons_of_mem _ hf)
    have hnum : windingNumber y (e :: l) = e.sign + windingNumber y l := by
      simp only [windingNumber, if_pos (hmax e List.mem_cons_self)]
    have hk : (if e.clockWise then k + 1 else k - 1) = k + e.sign := by
      unfold EdgeTableEntry.sign
      split_ifs <;> rfl
    have hsum : k + windingNumber y (e :: l) = k + e.sign + windingNumber y l := by omega
    have ih := ih (k + e.sign)
    rw [hsum]
    simp only [computeWAET, hk]
    generalize k + e.sign = k' at ih ⊢
    have hcond : (decide (k = 0) = false ∧ k' = 0) ∨ (decide (k = 0) = true ∧ k' ≠ 0) ↔
        ¬ (k = 0 ↔ k' = 0) := by
      simp only [decide_eq_false_iff_not, decide_eq_true_eq]
      tauto
    by_cases hsame : k = 0 ↔ k' = 0
    · rw [if_neg (not_not.2 hsame ∘ hcond.1), decide_eq_decide.2 hsame, ih, hsame]
    · have hflip : (!decide (k = 0)) = decide (k' = 0) := by
        rw [← decide_not, decide_eq_decide]
        tauto
      rw [if_pos (hcond.2 hsame), hflip, List.length_cons]
      have hodd : ∀ n : ℕ, (n + 1) % 2 = 0 ↔ ¬ n % 2 = 0 := fun n => by omega
      rw [hodd, ih]
      tauto

theorem computeWAET_sublist (inside : Bool) (k : ℤ) (l : List EdgeTableEntry) :
    (computeWAET inside k l).Sublist l := by
  induction l generalizing inside k with
  | nil => exact List.Sublist.slnil
  | cons e l ih =>
    simp only [computeWAET]
    generalize (if e.clockWise then k + 1 else k - 1) = k'
    split_ifs
    · exact (ih _ _).cons_cons e
    · exact (ih _ _).cons e

/-! ### The table of edges -/

/-- **The edges that wait**, from the scanline `y` on: each list in its place, and no edge ends
above the scanline on which it begins. -/
structure Pending (y : ℤ) (l : List (ℤ × List EdgeTableEntry)) : Prop where
  ascending : l.Pairwise fun p q => p.1 < q.1
  le : ∀ p ∈ l, y ≤ p.1
  fits : ∀ p ∈ l, ∀ e ∈ p.2, p.1 ≤ e.ymax

theorem Pending.nil (y : ℤ) : Pending y [] := ⟨List.Pairwise.nil, by simp, by simp⟩

theorem Pending.mono {y y' : ℤ} {l : List (ℤ × List EdgeTableEntry)} (h : Pending y l)
    (hy : y' ≤ y) : Pending y' l :=
  ⟨h.ascending, fun p hp => hy.trans (h.le p hp), h.fits⟩

theorem Pending.tail {y : ℤ} {p : ℤ × List EdgeTableEntry} {l : List (ℤ × List EdgeTableEntry)}
    (h : Pending y (p :: l)) : Pending (p.1 + 1) l :=
  ⟨(List.pairwise_cons.1 h.ascending).2,
    fun q hq => Int.add_one_le_of_lt ((List.pairwise_cons.1 h.ascending).1 q hq),
    fun q hq => h.fits q (List.mem_cons_of_mem _ hq)⟩

/-- **`REGION_InsertEdgeInET`.** -/
theorem insertEdgeInET_spec {e : EdgeTableEntry} {scanline y₀ : ℤ}
    {l : List (ℤ × List EdgeTableEntry)} (h : Pending y₀ l) (hy : y₀ ≤ scanline)
    (he : scanline ≤ e.ymax) :
    Pending y₀ (insertEdgeInET e scanline l) ∧ ∀ y,
      pendingNumber y (insertEdgeInET e scanline l) =
        (if scanline ≤ y then windingNumber y [e] else 0) + pendingNumber y l := by
  induction l generalizing y₀ with
  | nil =>
    refine ⟨⟨List.pairwise_singleton _ _, ?_, ?_⟩, fun y => rfl⟩
    · simpa [insertEdgeInET] using hy
    · simpa [insertEdgeInET] using he
  | cons p l ih =>
    obtain ⟨s, edgelist⟩ := p
    have hs : y₀ ≤ s := h.le _ List.mem_cons_self
    simp only [insertEdgeInET]
    split_ifs with hlt hgt
    · obtain ⟨hpend, hnum⟩ := ih h.tail (Int.add_one_le_of_lt hlt)
      refine ⟨⟨List.pairwise_cons.2 ⟨fun q hq => Int.lt_of_add_one_le (hpend.le q hq),
        hpend.ascending⟩, fun q hq => ?_, fun q hq => ?_⟩, fun y => ?_⟩
      · rcases List.mem_cons.1 hq with rfl | hq
        · exact hs
        · exact (hs.trans (Int.le_of_lt (Int.lt_succ s))).trans (hpend.le q hq)
      · rcases List.mem_cons.1 hq with rfl | hq
        · exact h.fits _ List.mem_cons_self
        · exact hpend.fits q hq
      · simp only [pendingNumber, hnum]
        omega
    · refine ⟨⟨List.pairwise_cons.2 ⟨fun q hq => ?_, h.ascending⟩, fun q hq => ?_,
        fun q hq => ?_⟩, fun y => rfl⟩
      · rcases List.mem_cons.1 hq with rfl | hq
        · exact hgt
        · exact lt_trans hgt ((List.pairwise_cons.1 h.ascending).1 q hq)
      · rcases List.mem_cons.1 hq with rfl | hq
        · exact hy
        · exact h.le q hq
      · rcases List.mem_cons.1 hq with rfl | hq
        · simpa using he
        · exact h.fits q hq
    · obtain rfl : s = scanline := by omega
      refine ⟨⟨List.pairwise_cons.2 ⟨fun q hq => (List.pairwise_cons.1 h.ascending).1 q hq,
        (List.pairwise_cons.1 h.ascending).2⟩, fun q hq => ?_, fun q hq => ?_⟩, fun y => ?_⟩
      · rcases List.mem_cons.1 hq with rfl | hq
        · exact hs
        · exact h.le q (List.mem_cons_of_mem _ hq)
      · rcases List.mem_cons.1 hq with rfl | hq
        · intro f hf
          rcases mem_insertEdge.1 hf with rfl | hf
          · exact he
          · exact h.fits (s, edgelist) List.mem_cons_self f hf
        · exact h.fits q (List.mem_cons_of_mem _ hq)
      · simp only [pendingNumber, windingNumber_insertEdge]
        simp only [windingNumber]
        split_ifs <;> omega

/-- Whether the scanline is not above the corner. -/
def below (p : POINT) (y : ℤ) : ℤ := if p.y ≤ y then 1 else 0

/-- An edge that is not horizontal goes around on the scanlines between its ends. -/
theorem edgeEntry_spec {prevPt currPt : POINT} {e : EdgeTableEntry}
    (h : edgeEntry prevPt currPt = some e) (hne : prevPt.y ≠ currPt.y) :
    (edgeEnds prevPt currPt).1.y ≤ e.ymax ∧ ∀ y,
      (if (edgeEnds prevPt currPt).1.y ≤ y then windingNumber y [e] else 0) =
        below prevPt y - below currPt y := by
  simp only [edgeEntry, Option.bind_eq_bind, Option.bind_eq_some_iff] at h
  obtain ⟨dy, -, bres, -, h⟩ := h
  cases h
  simp only [windingNumber, EdgeTableEntry.sign, edgeEnds, below, add_zero, decide_eq_true_eq]
  by_cases hgt : prevPt.y > currPt.y
  · simp only [if_pos hgt, if_neg (not_le.2 hgt)]
    refine ⟨by omega, fun y => ?_⟩
    split_ifs <;> omega
  · simp only [if_neg hgt, if_pos (not_lt.1 hgt)]
    refine ⟨by omega, fun y => ?_⟩
    split_ifs <;> omega

/-- The loop of `REGION_CreateEdgeTable`, unless the number of scanlines overflows. -/
theorem addEdges_spec (pts : List POINT) {prevPt : POINT} {ET ET' : EdgeTable} {total n : ℕ}
    (hpend : Pending ET.ymin ET.scanlines) (h : addEdges prevPt pts ET total = some (n, ET'))
    (hn : n ≠ 0) : Pending ET'.ymin ET'.scanlines ∧ ∀ y, pendingNumber y ET'.scanlines =
      pendingNumber y ET.scanlines + below prevPt y - below (pts.getLast?.getD prevPt) y := by
  induction pts generalizing prevPt ET total with
  | nil =>
    cases h
    exact ⟨hpend, fun y => by simp⟩
  | cons currPt pts ih =>
    have hlast : ((currPt :: pts).getLast?.getD prevPt) = pts.getLast?.getD currPt := by
      rw [List.getLast?_cons]
      rfl
    rw [hlast]
    simp only [addEdges] at h
    by_cases hhor : prevPt.y = currPt.y
    · rw [if_pos hhor] at h
      obtain ⟨hpend', hnum⟩ := ih hpend h
      refine ⟨hpend', fun y => ?_⟩
      rw [hnum y]
      simp only [below, hhor]
    · rw [if_neg hhor] at h
      obtain ⟨e, he, h⟩ := Option.bind_eq_some_iff.1 h
      by_cases hover : total + edgeHeight prevPt currPt ≥ 0x100000000
      · rw [if_pos hover] at h
        cases h
        exact absurd rfl hn
      · rw [if_neg hover] at h
        obtain ⟨hfit, hedge⟩ := edgeEntry_spec he hhor
        have hmin : (ET.insert prevPt currPt e).ymin ≤ ET.ymin ∧
            (ET.insert prevPt currPt e).ymin ≤ (edgeEnds prevPt currPt).1.y := by
          simp only [EdgeTable.insert]
          split_ifs <;> omega
        obtain ⟨hins, hnumins⟩ := insertEdgeInET_spec (hpend.mono hmin.1) hmin.2 hfit
        obtain ⟨hpend', hnum⟩ := ih hins h
        refine ⟨hpend', fun y => ?_⟩
        rw [hnum y]
        show pendingNumber y (insertEdgeInET e _ ET.scanlines) + _ - _ = _
        rw [hnumins, hedge]
        omega

/-- **The edges of a polygon go around no point of a scanline altogether.** -/
theorem createEdgeTable_spec {pts : List POINT} {n : ℕ} {ET : EdgeTable}
    (h : createEdgeTable pts = some (n, ET)) (hn : n ≠ 0) :
    Pending ET.ymin ET.scanlines ∧ ∀ y, pendingNumber y ET.scanlines = 0 := by
  unfold createEdgeTable at h
  cases hlast : pts.getLast? with
  | none =>
    rw [hlast] at h
    cases h
    exact absurd rfl hn
  | some last =>
    rw [hlast] at h
    simp only at h
    split_ifs at h
    · cases h
      exact absurd rfl hn
    · obtain ⟨hpend, hnum⟩ := addEdges_spec pts (Pending.nil _) h hn
      refine ⟨hpend, fun y => ?_⟩
      rw [hnum y, hlast]
      simp [pendingNumber]

theorem pendingNumber_eq_zero {y : ℤ} {l : List (ℤ × List EdgeTableEntry)}
    (h : Pending (y + 1) l) : pendingNumber y l = 0 := by
  induction l with
  | nil => rfl
  | cons p l ih =>
    have hp := h.le p List.mem_cons_self
    rw [pendingNumber, if_neg (by omega), zero_add]
    exact ih (h.tail.mono (by omega))

/-- **The invariant of `scan_convert`** before a scanline. -/
structure Scan.Valid (s : Scan) : Prop where
  pending : Pending s.y s.scanlines
  active : ∀ e ∈ s.AET, s.y ≤ e.ymax
  sorted : Sorted s.AET
  /-- The edges go around nothing, on this scanline and below. -/
  closed : ∀ y, s.y ≤ y → windingNumber y s.AET + pendingNumber y s.scanlines = 0
  row : s.row.2 = none
  cur_band : s.cur_band = s.row.1.numRects
  /-- The rectangles are those of bands above the scanline, the last of which begins at `prev_band`,
  unless it cannot be continued. -/
  built : ∃ D, Banded D ∧ s.row.1.rects = rectsOf D ∧ (∀ d ∈ D, d.bottom ≤ s.y) ∧
    (s.prev_band = (rectsOf D.dropLast).length ∨
      s.prev_band = (rectsOf D).length ∧ ∀ d ∈ D, d.bottom < s.y)

/-- The edges of a scanline when those that begin there are loaded. -/
theorem loadScanline_spec {s : Scan} (h : s.Valid) :
    Pending (s.y + 1) (loadScanline s.y s.scanlines s.AET).1 ∧
      (∀ e ∈ (loadScanline s.y s.scanlines s.AET).2, s.y ≤ e.ymax) ∧
        Sorted (loadScanline s.y s.scanlines s.AET).2 ∧
          ∀ y, s.y ≤ y → windingNumber y (loadScanline s.y s.scanlines s.AET).2 +
            pendingNumber y (loadScanline s.y s.scanlines s.AET).1 = 0 := by
  have hpend := h.pending
  have hclosed := h.closed
  unfold loadScanline
  cases hscan : s.scanlines with
  | nil =>
    rw [hscan] at hclosed
    exact ⟨Pending.nil _, h.active, h.sorted, hclosed⟩
  | cons p l =>
    rw [hscan] at hpend hclosed
    obtain ⟨s', edgelist⟩ := p
    have hle : s.y ≤ s' := hpend.le _ List.mem_cons_self
    simp only
    split_ifs with hy
    · have hload := fun y => loadAET_spec y edgelist h.sorted
      refine ⟨hpend.tail.mono (by simp only; omega), fun e he => ?_, (hload 0).2.2,
        fun y hsy => ?_⟩
      · rcases ((hload 0).1 e).1 he with he | he
        · exact hy ▸ hpend.fits _ List.mem_cons_self e he
        · exact h.active e he
      · have := hclosed y hsy
        rw [pendingNumber, if_pos (by simp only; omega)] at this
        rw [(hload y).2.1]
        simp only at this ⊢
        omega
    · refine ⟨⟨hpend.ascending, fun q hq => ?_, hpend.fits⟩, h.active, h.sorted, hclosed⟩
      rcases List.mem_cons.1 hq with rfl | hq
      · show s.y + 1 ≤ s'
        omega
      · have := (List.pairwise_cons.1 hpend.ascending).1 q hq
        simp only at this
        omega

/-- **The rectangles of a scanline**, by either rule. -/
theorem scanRow_spec {mode : PolyFillMode} {y : ℤ} {AET : List EdgeTableEntry} {obj : WINEREGION}
    {row : Row} (hactive : ∀ e ∈ AET, y ≤ e.ymax) (hsorted : Sorted AET)
    (hclosed : windingNumber y AET = 0) (hobj : ∀ r ∈ obj.rects, r.top < y)
    (hap : mode = .winding → Apart (spans (crossings (computeWAET true 0 AET))))
    (h : scanRow mode y AET (obj, none) = some row) :
    row.2 = none ∧ ∃ out, Merged obj.rects y (y + 1) out row.1 := by
  cases mode with
  | alternate =>
    have heven : (crossings AET).length % 2 = 0 := by
      have := even_of_windingNumber hactive
      rw [hclosed] at this
      unfold crossings
      rw [List.length_map]
      omega
    exact alternateRow_spec (fun r hr => (hobj r hr).ne) _ obj []
      ⟨separated_nil, (List.append_nil _).symm⟩ (by simp) hsorted heven h
  | winding =>
    have heven : (crossings (computeWAET true 0 AET)).length % 2 = 0 := by
      unfold crossings
      rw [List.length_map]
      exact (length_computeWAET hactive 0).2 (by rw [hclosed]; simp)
    obtain ⟨hslot, hrects⟩ := windingRow_spec _ obj heven h
    have hsub := ((computeWAET_sublist true 0 AET).map fun e => e.bres.minor_axis)
    exact ⟨hslot, _, separated_spans (hsorted.sublist hsub) (hap rfl), hrects⟩

theorem coalesce_of_eq (pReg : WINEREGION) (prevStart : ℕ) :
    coalesce pReg prevStart pReg.rects.length = (pReg, pReg.rects.length) := by
  unfold coalesce
  simp [LinesUp, topBand, afterBand]

/-- `REGION_Coalesce` when there is no band before the one that was added. -/
theorem coalesce_of_gap {pReg : WINEREGION} {D : List (Band ℤ)} {b : Band ℤ}
    (hrects : pReg.rects = rectsOf D ++ rectsOf [b]) :
    coalesce pReg (rectsOf D).length (rectsOf D).length = (pReg, (rectsOf D).length) := by
  have hdrop : pReg.rects.drop (rectsOf D).length = rectsOf [b] := by
    rw [hrects]
    exact List.drop_left
  obtain ⟨-, hafter⟩ := topBand_rectsOf (b := b) (D := []) (by simp)
  unfold coalesce
  rw [hdrop, hafter, rectsOf_nil]
  have hnil : (List.take (rectsOf D).length pReg.rects).drop (rectsOf D).length = [] :=
    List.drop_eq_nil_of_le (List.length_take_le _ _)
  rw [hnil, if_neg (fun h => h.1.2 h.1.1)]
  simp

/-- **One scanline.** -/
theorem scanLine_valid {mode : PolyFillMode} {s s' : Scan} (h : s.Valid)
    (hap : mode = .winding → Apart (spans (crossings (computeWAET true 0
      (loadScanline s.y s.scanlines s.AET).2)))) (hs : scanLine mode s = some s') :
    s'.Valid ∧ s'.y = s.y + 1 ∧ s'.scanlines = (loadScanline s.y s.scanlines s.AET).1 ∧
      nextScanline (loadScanline s.y s.scanlines s.AET).2 s.y = some s'.AET := by
  obtain ⟨hpend, hactive, hsorted, hclosed⟩ := loadScanline_spec h
  obtain ⟨D, hD, hrects, hbot, hprev⟩ := h.built
  have hrow := h.row
  have hcur := h.cur_band
  obtain ⟨row, hrow', hs⟩ := Option.bind_eq_some_iff.1 hs
  obtain ⟨AET, hAET, hs⟩ := Option.map_eq_some_iff.1 hs
  generalize loadScanline s.y s.scanlines s.AET = loaded at *
  rcases hsrow : s.row with ⟨obj, slot⟩
  rw [hsrow] at hrow hcur hrects hrow'
  obtain ⟨obj', slot'⟩ := row
  obtain rfl : slot = none := hrow
  have htops : ∀ r ∈ obj.rects, r.top < s.y := fun r hr => by
    rw [hrects] at hr
    obtain ⟨d, hd, hr⟩ := mem_rectsOf.1 hr
    rw [(of_mem_bandRects hr).1]
    exact d.top_lt.trans_le (hbot d hd)
  have hzero : windingNumber s.y loaded.2 = 0 := by
    have := hclosed s.y le_rfl
    rwa [pendingNumber_eq_zero hpend, add_zero] at this
  obtain ⟨hslot, out, hsep, hout⟩ := scanRow_spec hactive hsorted hzero htops hap hrow'
  obtain ⟨hnum, hactive', hsorted'⟩ := nextScanline_spec hactive hAET
  obtain rfl : slot' = none := hslot
  have hnext : ∀ y, s.y + 1 ≤ y → windingNumber y AET + pendingNumber y loaded.1 = 0 :=
    fun y hy => by rw [hnum y (by omega)]; exact hclosed y (by omega)
  have hbot' : ∀ d ∈ D, d.bottom < s.y + 1 := fun d hd => by
    have := hbot d hd
    omega
  by_cases hout' : out = []
  · -- nothing was added
    subst hout'
    rw [List.map_nil, List.append_nil] at hout
    have hlen : s.cur_band = obj'.rects.length := by rw [hcur, hout]; rfl
    simp only at hs
    rw [hlen, coalesce_of_eq] at hs
    have hbuilt : obj'.rects = rectsOf D := hout.trans hrects
    split_ifs at hs with hnil
    · subst hs
      exact ⟨⟨hpend, hactive', hsorted', hnext, rfl, rfl, D, hD, hbuilt,
        fun d hd => (hbot' d hd).le, .inr ⟨congrArg List.length hbuilt, hbot'⟩⟩, rfl, rfl, hAET⟩
    · subst hs
      have hempty : D = [] := by
        have hzero := not_not.1 hnil
        rw [← rectsOf_eq_nil_iff, ← hbuilt]
        exact List.length_eq_zero_iff.1 hzero
      subst hempty
      refine ⟨⟨hpend, hactive', hsorted', hnext, rfl, rfl, [], hD, hbuilt, by simp, ?_⟩,
        rfl, rfl, hAET⟩
      simpa using hprev
  · -- a band was added
    let b : Band ℤ := ⟨s.y, s.y + 1, out, by omega, hout', hsep⟩
    have hb : obj'.rects = rectsOf D ++ rectsOf [b] := by
      rw [hout, hrects, rectsOf_cons, rectsOf_nil, List.append_nil]
      rfl
    have hlen : s.cur_band = (rectsOf D).length := by
      rw [hcur]
      exact congrArg List.length hrects
    have hne : obj'.numRects ≠ 0 := fun h0 => by
      have := List.length_eq_zero_iff.1 h0
      rw [hb] at this
      exact absurd (List.append_eq_nil_iff.1 this).2
        fun h => List.cons_ne_nil b [] (rectsOf_eq_nil_iff.1 h)
    simp only [if_pos hne] at hs
    subst hs
    refine ⟨⟨hpend, hactive', hsorted', hnext, rfl, rfl, push D b, hD.push hbot, ?_, ?_, ?_⟩,
      rfl, rfl, hAET⟩
    · show (coalesce obj' s.prev_band s.cur_band).1.rects = _
      rw [hlen]
      rcases hprev with hprev | ⟨hprev, hgap⟩
      · rw [(coalesce_spec hb (by simp) hprev).1, List.append_nil]
      · rw [hprev, coalesce_of_gap hb, push_of_lt hgap, rectsOf_append]
        exact hb
    · exact fun d hd => bottom_le_of_mem_push hbot hd
    · show (coalesce obj' s.prev_band s.cur_band).2 = _ ∨ _
      refine .inl ?_
      rw [hlen]
      rcases hprev with hprev | ⟨hprev, hgap⟩
      · exact (coalesce_spec hb (by simp) hprev).2 rfl
      · rw [hprev, coalesce_of_gap hb, push_of_lt hgap, List.dropLast_concat]

/-- **On no scanline an interval ends where the next one begins**, by the winding rule. -/
def rowsApart (mode : PolyFillMode) :
    ℕ → ℤ → List (ℤ × List EdgeTableEntry) → List EdgeTableEntry → Bool
  | 0, _, _, _ => true
  | n + 1, y, scanlines, AET =>
    let loaded := loadScanline y scanlines AET
    (decide (mode = .winding → Apart (spans (crossings (computeWAET true 0 loaded.2))))) &&
      match nextScanline loaded.2 y with
      | some AET => rowsApart mode n (y + 1) loaded.1 AET
      | none => true

/-- **All scanlines.** -/
theorem scanLines_valid {mode : PolyFillMode} (n : ℕ) {s s' : Scan} (h : s.Valid)
    (hap : rowsApart mode n s.y s.scanlines s.AET = true) (hs : scanLines mode n s = some s') :
    s'.Valid := by
  induction n generalizing s with
  | zero => exact Option.some.inj hs ▸ h
  | succ n ih =>
    obtain ⟨t, ht, hs⟩ := Option.bind_eq_some_iff.1 hs
    rw [rowsApart, Bool.and_eq_true, decide_eq_true_eq] at hap
    obtain ⟨hvalid, hy, hscanlines, hAET⟩ := scanLine_valid h hap.1 ht
    refine ih hvalid ?_ hs
    have hap := hap.2
    rw [hAET] at hap
    rw [hy, hscanlines]
    exact hap

/-- **`scan_convert`** makes a tight region of the edges of a polygon. -/
theorem scanConvert_tight {obj rgn : WINEREGION} {ET : EdgeTable} {mode : PolyFillMode}
    (hobj : obj.rects = []) (hpend : Pending ET.ymin ET.scanlines)
    (hclosed : ∀ y, pendingNumber y ET.scanlines = 0)
    (hap : rowsApart mode (ET.ymax - ET.ymin).toNat ET.ymin ET.scanlines [] = true)
    (h : scanConvert obj ET mode = some rgn) : rgn.Tight := by
  obtain ⟨s, hs, rfl⟩ := Option.map_eq_some_iff.1 h
  have hinit : Scan.Valid ⟨ET.ymin, ET.scanlines, [], (obj, none), 0, 0⟩ :=
    { pending := hpend
      active := by simp
      sorted := List.Pairwise.nil
      closed := fun y _ => by simp [windingNumber, hclosed]
      row := rfl
      cur_band := by simp [WINEREGION.numRects, hobj]
      built := ⟨[], Banded.nil, hobj, by simp, .inl rfl⟩ }
  obtain ⟨D, hD, hrects, -⟩ := (scanLines_valid _ hinit hap hs).built
  have hcompact : ∀ {reg : WINEREGION}, reg.Tight → (compact reg).Tight := fun {reg} hreg => by
    have hext : (compact reg).extents = reg.extents := by
      unfold compact
      split_ifs <;> rfl
    refine ⟨(compact_rects reg).symm ▸ hreg.canonical, fun hne => ?_⟩
    rw [hext]
    exact (hreg.bounds (compact_rects reg ▸ hne)).congr
      fun x y => (covers_congr (compact_rects reg) x y).symm
  refine hcompact ?_
  split_ifs with hne
  · exact (setExtents_wellFormed ⟨D, hD, hrects⟩).tight
  · have hnil := List.length_eq_zero_iff.1 (not_not.1 hne)
    exact ⟨⟨D, hD, hrects⟩, fun h => absurd hnil h⟩

/-- **The polygon is a rectangle, or on no scanline an interval ends where the next one begins.** -/
def polygonApart (pts : List POINT) (mode : PolyFillMode) : Bool :=
  match rectangular pts with
  | some _ => true
  | none =>
    match createEdgeTable pts with
    | some (n, ET) =>
      n == 0 || rowsApart mode (ET.ymax - ET.ymin).toNat ET.ymin ET.scanlines []
    | none => true

theorem initRegion_rects {n : ℕ} {reg : WINEREGION} (h : initRegion n = .ok reg) :
    reg.rects = [] ∧ reg.extents = ⟨0, 0, 0, 0⟩ := by
  simp only [initRegion] at h
  split_ifs at h
  obtain rfl := Except.ok.inj h
  exact ⟨rfl, rfl⟩

/-- **`create_polypolygon_region`** makes a tight region. -/
theorem createPolypolygonRegion_tight {pts : List POINT} {mode : PolyFillMode}
    {rgn : WINEREGION} (hap : polygonApart pts mode = true)
    (h : createPolypolygonRegion pts mode = some (some rgn)) : rgn.Tight := by
  unfold createPolypolygonRegion at h
  unfold polygonApart at hap
  cases hrect : rectangular pts with
  | some p =>
    rw [hrect] at h
    cases h
    exact (setRectRgn_wellFormed _ _ _ _ _).tight
  | none =>
    rw [hrect] at h hap
    obtain ⟨⟨n, ET⟩, ht, h⟩ := Option.bind_eq_some_iff.1 h
    rw [ht] at hap
    cases hinit : initRegion (n / 2) with
    | error e =>
      simp only [hinit] at h
      cases h
    | ok obj =>
      simp only [hinit] at h
      by_cases hn : n ≠ 0
      · rw [if_pos hn] at h
        obtain ⟨rgn', hscan, h⟩ := Option.map_eq_some_iff.1 h
        cases h
        obtain ⟨hpend, hclosed⟩ := createEdgeTable_spec ht hn
        refine scanConvert_tight (initRegion_rects hinit).1 hpend hclosed ?_ hscan
        simpa [hn] using hap
      · rw [if_neg hn] at h
        cases h
        obtain ⟨hrects, hext⟩ := initRegion_rects hinit
        exact (wellFormed_of_rects_eq_nil hrects hext).tight

theorem combinePolygon_tight {rgn rgn' : WINEREGION} {poly : Option WINEREGION} (h : rgn.Tight)
    (hpoly : ∀ p ∈ poly, p.Tight) (hc : combinePolygon rgn poly = some rgn') : rgn'.Tight := by
  unfold combinePolygon at hc
  simp only at hc
  split at hc
  · next m n hok =>
    cases hc
    refine combineRgn_tight (fun o => ?_) hok false
    by_cases ho : o = true
    · subst ho
      rw [Function.update_self]
      cases poly with
      | none => exact h
      | some p => exact hpoly p rfl
    · rw [Function.update_of_ne (by simpa using ho)]
      exact h
  · cases hc

theorem extCreateTransformed_tight {translate : POINT → POINT} {rects : List RECT}
    {rgn rgn' : WINEREGION} (h : rgn.Tight)
    (hap : ∀ r ∈ rects, polygonApart (corners translate r) .winding = true)
    (hc : extCreateTransformed translate rects rgn = some rgn') : rgn'.Tight := by
  induction rects generalizing rgn with
  | nil => exact Option.some.inj hc ▸ h
  | cons r rects ih =>
    obtain ⟨poly, hpoly, hc⟩ := Option.bind_eq_some_iff.1 hc
    obtain ⟨rgn₁, hrgn₁, hc⟩ := Option.bind_eq_some_iff.1 hc
    refine ih (combinePolygon_tight h (fun p hp => ?_) hrgn₁)
      (fun s hs => hap s (List.mem_cons_of_mem _ hs)) hc
    exact createPolypolygonRegion_tight (hap r List.mem_cons_self) (Option.mem_def.1 hp ▸ hpoly)

theorem unionRects_wellFormed (rects : List RECT) {rgn : WINEREGION} (h : rgn.WellFormed) :
    Yields WINEREGION.WellFormed (fun _ => True) (unionRects rects rgn) := by
  induction rects generalizing rgn with
  | nil => exact Yields.ok h
  | cons r rects ih =>
    exact Yields.ite (fun hr => (unionRectWithRegion_spec hr.1 hr.2 h).bind fun _ h => ih h)
      fun _ => ih h

/-- **`ExtCreateRegion`** makes a tight region. -/
theorem extCreateRegion_tight {xform : Option (POINT → POINT)} {rects : List RECT}
    {rgn : WINEREGION}
    (hap : ∀ f ∈ xform, ∀ r ∈ rects, polygonApart (corners f r) .winding = true)
    (h : extCreateRegion xform rects = some (some rgn)) : rgn.Tight := by
  cases xform with
  | some translate =>
    obtain ⟨rgn', hrgn', h⟩ := Option.map_eq_some_iff.1 h
    cases h
    exact extCreateTransformed_tight (setRectRgn_wellFormed _ _ _ _ _).tight (hap _ rfl) hrgn'
  | none =>
    have hyields : Yields WINEREGION.WellFormed (fun _ => True)
        ((initRegion (allocCount rects.length)).bind (unionRects rects)) := by
      cases hinit : initRegion (allocCount rects.length) with
      | error e => exact trivial
      | ok obj =>
        obtain ⟨hrects, hext⟩ := initRegion_rects hinit
        exact unionRects_wellFormed rects (wellFormed_of_rects_eq_nil hrects hext)
    unfold extCreateRegion at h
    simp only at h
    generalize (initRegion (allocCount rects.length)).bind (unionRects rects) = result at h hyields
    cases result with
    | ok obj =>
      cases h
      exact hyields.tight
    | error e =>
      cases e with
      | refused => cases h
      | overflow n => cases h

end Region

end Swinx
