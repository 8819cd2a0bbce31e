import Swinx.Data.Band
import Swinx.Data.Yields
import Swinx.Region.Basic

/-!
# The callbacks of `REGION_RegionOp`

Each callback adds the intervals of one band of the result to the new region: those of the
intersection, the union or the difference of the intervals of two bands, or those of one band.

* `intersectO_spec`, `unionO_spec`, `subtractO_spec`, `addRects_spec` — what the callbacks emit.
-/

namespace Swinx

namespace Region

open Bands

/-- The rectangle of an interval between two heights. -/
def toRect (top bottom : ℤ) (s : ℤ × ℤ) : RECT := ⟨s.1, top, s.2, bottom⟩

/-- A number of rectangles was too large to compute with it. -/
def Overflows (e : Fail) : Prop := ∃ n, e = .overflow n ∧ 1073741824 ≤ n

/-- **The new region**: intervals in canonical form with the points `P` are added to the old
one. -/
def Emits (reg : WINEREGION) (top bottom : ℤ) (P : ℤ → Prop) (reg' : WINEREGION) : Prop :=
  ∃ out, Separated out ∧ (∀ x, Covers out x ↔ P x) ∧
    reg'.rects = reg.rects ++ out.map (toRect top bottom)

namespace Emits

variable {reg reg₁ reg' : WINEREGION} {top bottom : ℤ} {P Q : ℤ → Prop}

theorem congr (h : Emits reg top bottom P reg') (hPQ : ∀ x, P x ↔ Q x) :
    Emits reg top bottom Q reg' := by
  obtain ⟨out, hsep, hpts, hrects⟩ := h
  exact ⟨out, hsep, fun x => (hpts x).trans (hPQ x), hrects⟩

theorem refl (hP : ∀ x, ¬ P x) : Emits reg top bottom P reg :=
  ⟨[], separated_nil, fun x => by simp [hP x], by simp⟩

theorem cons {left right : ℤ} (h₁ : reg₁.rects = reg.rects ++ [⟨left, top, right, bottom⟩])
    (hlt : left < right) (hP : ∀ x, P x → right < x) (h : Emits reg₁ top bottom P reg') :
    Emits reg top bottom (fun x => left ≤ x ∧ x < right ∨ P x) reg' := by
  obtain ⟨out, hsep, hpts, hrects⟩ := h
  refine ⟨(left, right) :: out, separated_cons_iff.2 ⟨hlt, fun x hx => ?_, hsep⟩, fun x => ?_, ?_⟩
  · exact hP x ((hpts x).1 hx)
  · rw [covers_cons, hpts]
  · rw [hrects, h₁, List.append_assoc]
    rfl

end Emits

theorem addRect_spec (reg : WINEREGION) (left top right bottom : ℤ) :
    Yields (fun reg' => reg'.rects = reg.rects ++ [⟨left, top, right, bottom⟩]) Overflows
      (addRect reg left top right bottom) := by
  unfold addRect
  split_ifs with hfull hsize
  · show (growRegion reg (2 * reg.size)).rects ++ _ = _
    rw [growRegion_rects]
  · refine Yields.error ⟨reg.size, rfl, ?_⟩
    unfold INT_MAX at hsize
    omega
  · exact Yields.ok rfl

theorem Emits.addRect {reg : WINEREGION} {left top right bottom : ℤ} {P : ℤ → Prop}
    {f : WINEREGION → Except Fail WINEREGION} (hlt : left < right) (hP : ∀ x, P x → right < x)
    (hf : ∀ reg, Yields (Emits reg top bottom P) Overflows (f reg)) :
    Yields (Emits reg top bottom fun x => left ≤ x ∧ x < right ∨ P x) Overflows
      ((addRect reg left top right bottom).bind f) :=
  (addRect_spec reg left top right bottom).bind fun reg₁ h₁ =>
    (hf reg₁).mono fun _ h => h.cons h₁ hlt hP

/-! ### One band -/

theorem addRects_spec (reg : WINEREGION) (r : List RECT) (top bottom : ℤ) :
    Yields (fun reg' => reg'.rects = reg.rects ++ (r.map RECT.sides).map (toRect top bottom))
      Overflows (addRects reg r top bottom) := by
  induction r generalizing reg with
  | nil => exact Yields.ok (List.append_nil _).symm
  | cons a r ih =>
    refine (addRect_spec reg a.left top a.right bottom).bind fun reg₁ h₁ => ?_
    refine (ih reg₁).mono fun reg' h => ?_
    rw [h, h₁, List.append_assoc]
    rfl

/-- The intersection is that of the first intervals, and what is to the right of it. -/
theorem covers_and_iff {s t : ℤ × ℤ} {l m : List (ℤ × ℤ)} (hl : Separated (s :: l))
    (hm : Separated (t :: m)) (x : ℤ) :
    Covers (s :: l) x ∧ Covers (t :: m) x ↔
      max s.1 t.1 ≤ x ∧ x < min s.2 t.2 ∨
        min s.2 t.2 ≤ x ∧ Covers (s :: l) x ∧ Covers (t :: m) x := by
  rcases lt_or_ge x (min s.2 t.2) with hx | hx
  · rw [hl.covers_iff_of_lt (lt_min_iff.1 hx).1, hm.covers_iff_of_lt (lt_min_iff.1 hx).2]
    simp [hx, hx.not_ge]
  · simp [hx, hx.not_gt]

theorem intersectO_spec (reg : WINEREGION) (r1 r2 : List RECT) (top bottom : ℤ)
    (h1 : Separated (r1.map RECT.sides)) (h2 : Separated (r2.map RECT.sides)) :
    Yields (Emits reg top bottom fun x =>
      Covers (r1.map RECT.sides) x ∧ Covers (r2.map RECT.sides) x) Overflows
      (intersectO reg r1 r2 top bottom) := by
  match r1, r2 with
  | [], _ =>
    rw [intersectO]
    · exact Yields.ok (Emits.refl fun x => by simp)
    · simp
  | _ :: _, [] =>
    rw [intersectO]
    · exact Yields.ok (Emits.refl fun x => by simp)
    · simp
  | a :: r1, b :: r2 =>
    -- whichever interval ends first, what is left is to the right of its end
    have hrest : ∀ reg, Yields (Emits reg top bottom fun x => min a.right b.right ≤ x ∧
        Covers ((a :: r1).map RECT.sides) x ∧ Covers ((b :: r2).map RECT.sides) x) Overflows
        (if a.right < b.right then intersectO reg r1 (b :: r2) top bottom
          else if b.right < a.right then intersectO reg (a :: r1) r2 top bottom
          else intersectO reg r1 r2 top bottom) := by
      intro reg
      refine Yields.ite (fun hab => ?_) fun hab => Yields.ite (fun hba => ?_) fun hba => ?_
      · refine (intersectO_spec reg r1 (b :: r2) top bottom h1.tail h2).mono fun _ h =>
          h.congr fun x => ?_
        rw [min_eq_left hab.le]
        constructor
        · rintro ⟨hx, hx'⟩
          have := h1.lt_of_covers hx
          exact ⟨this.le, covers_cons.2 (.inr hx), hx'⟩
        · rintro ⟨hle, hx, hx'⟩
          exact ⟨(covers_cons_of_le hle).1 hx, hx'⟩
      · refine (intersectO_spec reg (a :: r1) r2 top bottom h1 h2.tail).mono fun _ h =>
          h.congr fun x => ?_
        rw [min_eq_right hba.le]
        constructor
        · rintro ⟨hx, hx'⟩
          have := h2.lt_of_covers hx'
          exact ⟨this.le, hx, covers_cons.2 (.inr hx')⟩
        · rintro ⟨hle, hx, hx'⟩
          exact ⟨hx, (covers_cons_of_le hle).1 hx'⟩
      · have heq : a.right = b.right := le_antisymm (not_lt.1 hba) (not_lt.1 hab)
        refine (intersectO_spec reg r1 r2 top bottom h1.tail h2.tail).mono fun _ h =>
          h.congr fun x => ?_
        rw [← heq, min_self]
        constructor
        · rintro ⟨hx, hx'⟩
          have := h1.lt_of_covers hx
          exact ⟨this.le, covers_cons.2 (.inr hx), covers_cons.2 (.inr hx')⟩
        · rintro ⟨hle, hx, hx'⟩
          exact ⟨(covers_cons_of_le hle).1 hx, (covers_cons_of_le (heq.ge.trans hle)).1 hx'⟩
    rw [intersectO]
    have hpts : ∀ x, Covers ((a :: r1).map RECT.sides) x ∧ Covers ((b :: r2).map RECT.sides) x ↔
        max a.left b.left ≤ x ∧ x < min a.right b.right ∨ min a.right b.right ≤ x ∧
          Covers ((a :: r1).map RECT.sides) x ∧ Covers ((b :: r2).map RECT.sides) x :=
      covers_and_iff h1 h2
    by_cases hlt : max a.left b.left < min a.right b.right
    · rw [if_pos hlt]
      refine (Emits.addRect hlt (fun x hx => ?_) hrest).mono fun _ h => h.congr fun x =>
        (hpts x).symm
      -- the first interval does not contain its end
      rcases min_choice a.right b.right with h | h
      · rw [h] at hx ⊢
        exact h1.lt_of_covers ((covers_cons_of_le hx.1).1 hx.2.1)
      · rw [h] at hx ⊢
        exact h2.lt_of_covers ((covers_cons_of_le hx.1).1 hx.2.2)
    · rw [if_neg hlt]
      refine (hrest reg).mono fun _ h => h.congr fun x => ?_
      refine Iff.trans ?_ (hpts x).symm
      rw [or_iff_right]
      exact fun hx => hlt (hx.1.trans_lt hx.2)
termination_by r1.length + r2.length

/-- Intervals in canonical form for the points `P`, at the end of the new region; the last of them
may still grow. -/
def Merged (base : List RECT) (top bottom : ℤ) (out : List (ℤ × ℤ)) (reg : WINEREGION) : Prop :=
  Separated out ∧ reg.rects = base ++ out.map (toRect top bottom)

theorem mergeRect_spec {base : List RECT} {reg : WINEREGION} {r : RECT} {top bottom : ℤ}
    {out : List (ℤ × ℤ)} (hbase : ∀ s ∈ base, s.top ≠ top) (hM : Merged base top bottom out reg)
    (hr : r.left < r.right) (hle : ∀ t ∈ out, t.1 ≤ r.left) :
    Yields (fun reg' => ∃ out', Merged base top bottom out' reg' ∧
      (∀ x, Covers out' x ↔ Covers out x ∨ r.left ≤ x ∧ x < r.right) ∧
      ∀ t ∈ out', t.1 ≤ r.left) Overflows (mergeRect reg r top bottom) := by
  obtain ⟨hsep, hrects⟩ := hM
  unfold mergeRect
  rcases List.eq_nil_or_concat' out with rfl | ⟨out, c, rfl⟩
  · -- the first rectangle of the band
    have hadd : Yields (fun reg' => ∃ out', Merged base top bottom out' reg' ∧
        (∀ x, Covers out' x ↔ Covers [] x ∨ r.left ≤ x ∧ x < r.right) ∧
        ∀ t ∈ out', t.1 ≤ r.left) Overflows (addRect reg r.left top r.right bottom) := by
      refine (addRect_spec reg r.left top r.right bottom).mono fun reg' h => ?_
      refine ⟨[(r.left, r.right)], ⟨separated_singleton hr, ?_⟩, fun x => by simp, by simp⟩
      rw [h, hrects, List.map_nil, List.append_nil]
      rfl
    rw [List.map_nil, List.append_nil] at hrects
    split
    · next last hlast =>
      rw [hrects] at hlast
      rw [if_neg fun h => hbase last (List.mem_of_getLast? hlast) h.1]
      exact hadd
    · exact hadd
  · have hc : c.1 < c.2 := hsep.lt c (by simp)
    have hcr : c.1 ≤ r.left := hle c (by simp)
    have hpts : ∀ x, Covers (out ++ [c]) x ↔ Covers out x ∨ c.1 ≤ x ∧ x < c.2 := fun x => by
      rw [covers_append, covers_cons, or_iff_left (not_covers_nil x)]
    rw [List.map_append, ← List.append_assoc] at hrects
    have hlast : reg.rects.getLast? = some (toRect top bottom c) := by
      rw [hrects]
      exact List.getLast?_concat
    rw [hlast]
    refine Yields.ite (fun h => Yields.ite (fun hwide => ?_) fun hwide => ?_) fun h => ?_
    · -- the last rectangle is made wider
      have htouch : r.left ≤ c.2 := h.2.2
      have hwide : c.2 < r.right := hwide
      refine Yields.ok ⟨out ++ [(c.1, r.right)], ⟨?_, ?_⟩, fun x => ?_, fun t ht => ?_⟩
      · exact hsep.concat_of_fst_eq rfl (hc.trans hwide)
      · show widenLast reg.rects r.right = _
        rw [hrects, List.map_cons, List.map_nil, widenLast_concat, List.map_append,
          List.append_assoc]
        rfl
      · rw [hpts, covers_append, covers_cons, or_iff_left (not_covers_nil x), or_assoc]
        refine or_congr_right ⟨fun hx => ?_, fun hx => ?_⟩
        · omega
        · omega
      · rcases List.mem_append.1 ht with ht | ht
        · exact hle t (List.mem_append_left _ ht)
        · rw [List.mem_singleton.1 ht]
          exact hcr
    · -- the rectangle is in the last one
      have htouch : r.left ≤ c.2 := h.2.2
      have hwide : r.right ≤ c.2 := not_lt.1 hwide
      refine Yields.ok ⟨out ++ [c], ⟨hsep, ?_⟩, fun x => ?_, hle⟩
      · rw [hrects, List.map_append, List.append_assoc]
      · refine (or_iff_left_of_imp fun hx => (hpts x).2 (.inr ?_)).symm
        omega
    · have hgap : c.2 < r.left := lt_of_not_ge fun htouch => h ⟨rfl, rfl, htouch⟩
      refine (addRect_spec reg r.left top r.right bottom).mono fun reg' h' => ?_
      refine ⟨out ++ [c] ++ [(r.left, r.right)], ⟨hsep.concat hgap hr, ?_⟩, fun x => ?_, ?_⟩
      · rw [h', hrects, List.map_append, List.map_append, List.append_assoc, List.append_assoc,
          List.append_assoc]
        rfl
      · rw [covers_append, covers_cons, or_iff_left (not_covers_nil x)]
      · intro t ht
        rcases List.mem_append.1 ht with ht | ht
        · exact hle t ht
        · rw [List.mem_singleton.1 ht]

/-- The loops of `REGION_UnionO`, after which the intervals have the points of both bands. -/
theorem unionO_merged {base : List RECT} {top bottom : ℤ} (hbase : ∀ s ∈ base, s.top ≠ top)
    (reg : WINEREGION) (r1 r2 : List RECT) (out : List (ℤ × ℤ))
    (hM : Merged base top bottom out reg)
    (h1 : Separated (r1.map RECT.sides)) (h2 : Separated (r2.map RECT.sides))
    (hle1 : ∀ t ∈ out, ∀ s ∈ r1, t.1 ≤ s.left) (hle2 : ∀ t ∈ out, ∀ s ∈ r2, t.1 ≤ s.left) :
    Yields (fun reg' => ∃ out', Merged base top bottom out' reg' ∧ ∀ x, Covers out' x ↔
      Covers out x ∨ Covers (r1.map RECT.sides) x ∨ Covers (r2.map RECT.sides) x) Overflows
      (unionO reg r1 r2 top bottom) := by
  -- the rectangles after one begin to the right of it
  have hfst : ∀ {c : RECT} {r : List RECT}, Separated ((c :: r).map RECT.sides) →
      ∀ s ∈ r, c.left ≤ s.left :=
    fun h s hs => h.fst_le (List.mem_map_of_mem hs)
  match r1, r2 with
  | [], [] =>
    rw [unionO]
    exact Yields.ok ⟨out, hM, fun x => by simp⟩
  | a :: r1, [] =>
    rw [unionO]
    refine (mergeRect_spec hbase hM h1.head_lt fun t ht => hle1 t ht a (by simp)).bind ?_
    rintro reg₁ ⟨out₁, hM₁, hpts₁, hle⟩
    refine (unionO_merged hbase reg₁ r1 [] out₁ hM₁ h1.tail h2
      (fun t ht s hs => (hle t ht).trans (hfst h1 s hs)) (by simp)).mono ?_
    rintro reg' ⟨out', hM', hpts'⟩
    refine ⟨out', hM', fun x => ?_⟩
    rw [hpts', hpts₁, List.map_cons, covers_cons, or_assoc, or_assoc]
    rfl
  | [], b :: r2 =>
    rw [unionO]
    refine (mergeRect_spec hbase hM h2.head_lt fun t ht => hle2 t ht b (by simp)).bind ?_
    rintro reg₁ ⟨out₁, hM₁, hpts₁, hle⟩
    refine (unionO_merged hbase reg₁ [] r2 out₁ hM₁ h1 h2.tail (by simp)
      (fun t ht s hs => (hle t ht).trans (hfst h2 s hs))).mono ?_
    rintro reg' ⟨out', hM', hpts'⟩
    refine ⟨out', hM', fun x => ?_⟩
    rw [hpts', hpts₁, List.map_cons, covers_cons, or_assoc, or_left_comm (c := Covers _ x)]
    rfl
  | a :: r1, b :: r2 =>
    rw [unionO]
    refine Yields.ite (fun hab => ?_) fun hab => ?_
    · refine (mergeRect_spec hbase hM h1.head_lt fun t ht => hle1 t ht a (by simp)).bind ?_
      rintro reg₁ ⟨out₁, hM₁, hpts₁, hle⟩
      refine (unionO_merged hbase reg₁ r1 (b :: r2) out₁ hM₁ h1.tail h2
        (fun t ht s hs => (hle t ht).trans (hfst h1 s hs)) fun t ht s hs => ?_).mono ?_
      · rcases List.mem_cons.1 hs with rfl | hs
        · exact (hle t ht).trans hab.le
        · exact ((hle t ht).trans hab.le).trans (hfst h2 s hs)
      · rintro reg' ⟨out', hM', hpts'⟩
        refine ⟨out', hM', fun x => ?_⟩
        rw [hpts', hpts₁, List.map_cons (l := r1), covers_cons, or_assoc, or_assoc]
        rfl
    · have hba : b.left ≤ a.left := not_lt.1 hab
      refine (mergeRect_spec hbase hM h2.head_lt fun t ht => hle2 t ht b (by simp)).bind ?_
      rintro reg₁ ⟨out₁, hM₁, hpts₁, hle⟩
      refine (unionO_merged hbase reg₁ (a :: r1) r2 out₁ hM₁ h1 h2.tail (fun t ht s hs => ?_)
        fun t ht s hs => (hle t ht).trans (hfst h2 s hs)).mono ?_
      · rcases List.mem_cons.1 hs with rfl | hs
        · exact (hle t ht).trans hba
        · exact ((hle t ht).trans hba).trans (hfst h1 s hs)
      · rintro reg' ⟨out', hM', hpts'⟩
        refine ⟨out', hM', fun x => ?_⟩
        rw [hpts', hpts₁, List.map_cons (l := r2), covers_cons, or_assoc,
          or_left_comm (c := Covers _ x)]
        rfl
termination_by r1.length + r2.length

/-- `REGION_UnionO` emits the union, below the rectangles of the region. -/
theorem unionO_spec (reg : WINEREGION) (r1 r2 : List RECT) (top bottom : ℤ)
    (h1 : Separated (r1.map RECT.sides)) (h2 : Separated (r2.map RECT.sides))
    (htop : ∀ r ∈ reg.rects, r.top < top) :
    Yields (Emits reg top bottom fun x =>
      Covers (r1.map RECT.sides) x ∨ Covers (r2.map RECT.sides) x) Overflows
      (unionO reg r1 r2 top bottom) := by
  have hM : Merged reg.rects top bottom [] reg := ⟨separated_nil, (List.append_nil _).symm⟩
  refine (unionO_merged (fun s hs => (htop s hs).ne) reg r1 r2 [] hM h1 h2 (by simp)
    (by simp)).mono ?_
  rintro reg' ⟨out, ⟨hsep, hrects⟩, hpts⟩
  exact ⟨out, hsep, fun x => by rw [hpts, or_iff_right (not_covers_nil x)], hrects⟩

/-- What is left of the minuends, of the first one from `left` on. -/
def minuends (left : ℤ) : List RECT → List (ℤ × ℤ)
  | [] => []
  | a :: r1 => (left, a.right) :: r1.map RECT.sides

theorem minuends_nextLeft (r1 : List RECT) (left : ℤ) :
    minuends (nextLeft r1 left) r1 = r1.map RECT.sides := by
  cases r1 <;> rfl

/-- The points of `l` that are not in `m`. -/
def Minus (l m : List (ℤ × ℤ)) (x : ℤ) : Prop := Covers l x ∧ ¬ Covers m x

/-- A subtrahend that ends before the minuends does not matter. -/
theorem minus_cons_of_le {s t : ℤ × ℤ} {l m : List (ℤ × ℤ)} (hl : Separated (s :: l))
    (hts : t.2 ≤ s.1) (x : ℤ) : Minus (s :: l) m x ↔ Minus (s :: l) (t :: m) x :=
  and_congr_right fun hx => by rw [covers_cons_of_le (hts.trans (hl.le_of_covers hx))]

theorem minus_of_covered {s t : ℤ × ℤ} {l m : List (ℤ × ℤ)} (hts : t.1 ≤ s.1) (hst : s.2 ≤ t.2)
    (x : ℤ) : Minus l (t :: m) x ↔ Minus (s :: l) (t :: m) x := by
  refine ⟨fun ⟨hx, hx'⟩ => ⟨covers_cons.2 (.inr hx), hx'⟩, fun ⟨hx, hx'⟩ => ⟨?_, hx'⟩⟩
  refine (covers_cons.1 hx).resolve_left fun h => hx' (covers_cons.2 (.inl ?_))
  exact ⟨hts.trans h.1, h.2.trans_le hst⟩

theorem minus_of_cut {s t : ℤ × ℤ} {l m : List (ℤ × ℤ)} (hl : Separated (s :: l))
    (hts : t.1 ≤ s.1) (hlt : s.1 < t.2) (hcut : t.2 < s.2) (x : ℤ) :
    Minus ((t.2, s.2) :: l) m x ↔ Minus (s :: l) (t :: m) x := by
  have hl' : Separated ((t.2, s.2) :: l) := hl.cut hcut
  constructor
  · rintro ⟨hx, hx'⟩
    have hle : t.2 ≤ x := hl'.le_of_covers hx
    refine ⟨covers_cons.2 ?_, by rwa [covers_cons_of_le hle]⟩
    exact (covers_cons.1 hx).imp_left fun h => ⟨hlt.le.trans hle, h.2⟩
  · rintro ⟨hx, hx'⟩
    have hle : t.2 ≤ x := by
      by_contra hlt'
      exact hx' (covers_cons.2 (.inl ⟨hts.trans (hl.le_of_covers hx), not_le.1 hlt'⟩))
    rw [covers_cons_of_le hle] at hx'
    exact ⟨covers_cons.2 ((covers_cons.1 hx).imp_left fun h => ⟨hle, h.2⟩), hx'⟩

/-- The minuend to the left of the first subtrahend is left over. -/
theorem minus_of_before {s t : ℤ × ℤ} {l m : List (ℤ × ℤ)} (hl : Separated (s :: l))
    (hm : Separated (t :: m)) (hst : s.1 < t.1) (hts : t.1 < s.2) (x : ℤ) :
    s.1 ≤ x ∧ x < t.1 ∨ Minus ((t.1, s.2) :: l) (t :: m) x ↔ Minus (s :: l) (t :: m) x := by
  rcases lt_or_ge x t.1 with hx | hx
  · have hnot : ¬ Covers (t :: m) x := fun h => absurd (hm.le_of_covers h) hx.not_ge
    have hnot' : ¬ Covers ((t.1, s.2) :: l) x := fun h =>
      absurd ((hl.cut hts).le_of_covers h) hx.not_ge
    simp only [Minus, hnot, hnot', hl.covers_iff_of_lt (hx.trans hts), hx]
    tauto
  · have hcov : Covers ((t.1, s.2) :: l) x ↔ Covers (s :: l) x := by
      rw [covers_cons, covers_cons]
      simp [hx, hst.le.trans hx]
    simp only [Minus, hcov, hx.not_gt, and_false, false_or]

theorem minus_of_clear {s : ℤ × ℤ} {l m : List (ℤ × ℤ)} (hl : Separated (s :: l))
    (hm : ∀ x, Covers m x → s.2 ≤ x) (x : ℤ) :
    s.1 ≤ x ∧ x < s.2 ∨ Minus l m x ↔ Minus (s :: l) m x := by
  rcases lt_or_ge x s.2 with hx | hx
  · have hnot : ¬ Covers m x := fun h => absurd (hm x h) hx.not_ge
    have hnot' : ¬ Covers l x := fun h => absurd (hl.lt_of_covers h) hx.not_gt
    simp only [Minus, hnot, hnot', hl.covers_iff_of_lt hx, hx]
    tauto
  · simp only [Minus, covers_cons_of_le hx, hx.not_gt, and_false, false_or]

/-- The loops of `REGION_SubtractO` emit what is left of the minuends. -/
theorem subtractFrom_spec (top bottom : ℤ) (reg : WINEREGION) (left : ℤ) (r1 r2 : List RECT)
    (h1 : Separated (minuends left r1)) (h2 : Separated (r2.map RECT.sides)) :
    Yields (Emits reg top bottom (Minus (minuends left r1) (r2.map RECT.sides))) Overflows
      (subtractFrom top bottom reg left r1 r2) := by
  match r1, r2 with
  | [], _ =>
    rw [subtractFrom]
    exact Yields.ok (Emits.refl fun x hx => not_covers_nil x hx.1)
  | a :: r1, [] =>
    rw [subtractFrom]
    refine (Emits.addRect (f := fun reg => subtractFrom top bottom reg (nextLeft r1 left) r1 [])
      h1.head_lt (fun x hx => h1.lt_of_covers hx.1) fun reg => ?_).mono fun _ h =>
        h.congr (minus_of_clear h1 fun x hx => absurd hx (not_covers_nil x))
    have hrest := subtractFrom_spec top bottom reg (nextLeft r1 left) r1 []
      (by rw [minuends_nextLeft]; exact h1.tail) h2
    rwa [minuends_nextLeft] at hrest
  | a :: r1, b :: r2 =>
    have hlt : left < a.right := h1.head_lt
    -- the minuend begins in the subtrahend
    have hcut : ∀ reg left, Separated (minuends left (a :: r1)) → b.left ≤ left →
        left < b.right → Yields (Emits reg top bottom
          (Minus (minuends left (a :: r1)) ((b :: r2).map RECT.sides))) Overflows
          (if b.right ≥ a.right then
            subtractFrom top bottom reg (nextLeft r1 b.right) r1 (b :: r2)
          else subtractFrom top bottom reg b.right (a :: r1) r2) := by
      intro reg left h1 hba hlb
      refine Yields.ite (fun hall => ?_) fun hpart => ?_
      · have hrest := subtractFrom_spec top bottom reg (nextLeft r1 b.right) r1 (b :: r2)
          (by rw [minuends_nextLeft]; exact h1.tail) h2
        rw [minuends_nextLeft] at hrest
        exact hrest.mono fun _ h => h.congr (minus_of_covered hba hall)
      · have hpart : b.right < a.right := not_le.1 hpart
        exact (subtractFrom_spec top bottom reg b.right (a :: r1) r2 (h1.cut hpart)
          h2.tail).mono fun _ h => h.congr (minus_of_cut (t := b.sides) h1 hba hlb hpart)
    rw [subtractFrom]
    refine Yields.ite (fun hmiss => ?_) fun hmiss => Yields.ite (fun hin => ?_) fun hin =>
      Yields.ite (fun hmid => ?_) fun hmid => ?_
    · exact (subtractFrom_spec top bottom reg left (a :: r1) r2 h1 h2.tail).mono fun _ h =>
        h.congr (minus_cons_of_le h1 hmiss)
    · exact hcut reg left h1 hin (not_le.1 hmiss)
    · refine (Emits.addRect (not_le.1 hin) (fun x hx => ?_) fun reg =>
        hcut reg b.left (h1.cut hmid) le_rfl h2.head_lt).mono fun _ h =>
          h.congr (minus_of_before h1 h2 (not_le.1 hin) hmid)
      -- the left edge of the subtrahend is covered
      have hle : b.left ≤ x := (h1.cut hmid).le_of_covers hx.1
      refine lt_of_le_of_ne hle fun heq => hx.2 (covers_cons.2 (.inl ?_))
      exact ⟨hle, heq ▸ h2.head_lt⟩
    · rw [if_pos hlt]
      refine (Emits.addRect hlt (fun x hx => h1.lt_of_covers hx.1) fun reg => ?_).mono fun _ h =>
        h.congr (minus_of_clear h1 fun x hx => (not_lt.1 hmid).trans (h2.le_of_covers hx))
      have hrest := subtractFrom_spec top bottom reg (nextLeft r1 left) r1 (b :: r2)
        (by rw [minuends_nextLeft]; exact h1.tail) h2
      rwa [minuends_nextLeft] at hrest
termination_by r1.length + r2.length

theorem subtractO_spec (reg : WINEREGION) (r1 r2 : List RECT) (top bottom : ℤ)
    (h1 : Separated (r1.map RECT.sides)) (h2 : Separated (r2.map RECT.sides)) :
    Yields (Emits reg top bottom fun x =>
      Covers (r1.map RECT.sides) x ∧ ¬ Covers (r2.map RECT.sides) x) Overflows
      (subtractO reg r1 r2 top bottom) := by
  have h := subtractFrom_spec top bottom reg (nextLeft r1 0) r1 r2
    (by rwa [minuends_nextLeft]) h2
  rwa [minuends_nextLeft] at h

end Region

end Swinx
