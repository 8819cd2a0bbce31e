import Mathlib.Data.List.Chain
import Mathlib.Order.Bounds.Basic
import Mathlib.Order.MinMax
import Mathlib.Tactic.Tauto

/-!
# Sets of points as bands of intervals

A finite union of rectangles in its canonical form: a list of horizontal bands from top to bottom,
each a list of half-open intervals from left to right that do not touch, where no band continues
the intervals of the band that it touches.  The coordinates are of any linear order.

* `separated_cons_iff` — an interval may stand before others if it ends before their points.
* `Banded.push_append` — a pushed band keeps the form, also with bands that follow it.
* `Separated.eq_of_covers`, `Banded.eq_of_coversIn` — the canonical form is unique.
-/

namespace Swinx

namespace Bands

variable {α : Type*} [LinearOrder α]

/-! ### Intervals -/

/-- The point `x` is in one of the half-open intervals. -/
def Covers (l : List (α × α)) (x : α) : Prop := ∃ s ∈ l, s.1 ≤ x ∧ x < s.2

/-- **Intervals in canonical form**: not empty, from left to right, with gaps between them. -/
structure Separated (l : List (α × α)) : Prop where
  lt : ∀ s ∈ l, s.1 < s.2
  gap : l.Pairwise fun s t => s.2 < t.1

@[simp] theorem not_covers_nil (x : α) : ¬ Covers [] x := fun h => by simp [Covers] at h

@[simp] theorem covers_cons {s : α × α} {l : List (α × α)} {x : α} :
    Covers (s :: l) x ↔ s.1 ≤ x ∧ x < s.2 ∨ Covers l x := by
  simp [Covers]

theorem covers_cons_of_le {s : α × α} {l : List (α × α)} {x : α} (hx : s.2 ≤ x) :
    Covers (s :: l) x ↔ Covers l x := by
  rw [covers_cons]
  exact or_iff_right fun h' => absurd h'.2 hx.not_gt

theorem covers_append {l l' : List (α × α)} {x : α} :
    Covers (l ++ l') x ↔ Covers l x ∨ Covers l' x := by
  simp [Covers, or_and_right, exists_or]

theorem separated_nil : Separated ([] : List (α × α)) := ⟨by simp, List.Pairwise.nil⟩

/-- An interval may stand before others if it ends before their points. -/
theorem separated_cons_iff {s : α × α} {l : List (α × α)} :
    Separated (s :: l) ↔ s.1 < s.2 ∧ (∀ x, Covers l x → s.2 < x) ∧ Separated l := by
  constructor
  · rintro ⟨hlt, hgap⟩
    obtain ⟨hs, hgap⟩ := List.pairwise_cons.1 hgap
    refine ⟨hlt s List.mem_cons_self, ?_, fun t ht => hlt t (List.mem_cons_of_mem _ ht), hgap⟩
    rintro x ⟨t, ht, hx, -⟩
    exact (hs t ht).trans_le hx
  · rintro ⟨hs, hpts, hlt, hgap⟩
    refine ⟨fun t ht => ?_, List.pairwise_cons.2 ⟨fun t ht => ?_, hgap⟩⟩
    · rcases List.mem_cons.1 ht with rfl | ht
      · exact hs
      · exact hlt t ht
    · exact hpts t.1 ⟨t, ht, le_rfl, hlt t ht⟩

namespace Separated

variable {s : α × α} {l : List (α × α)}

theorem head_lt (h : Separated (s :: l)) : s.1 < s.2 := (separated_cons_iff.1 h).1

theorem tail (h : Separated (s :: l)) : Separated l := (separated_cons_iff.1 h).2.2

/-- The points of the other intervals are to the right of the first one. -/
theorem lt_of_covers (h : Separated (s :: l)) {x : α} (hx : Covers l x) : s.2 < x :=
  (separated_cons_iff.1 h).2.1 x hx

/-- All points are at the left end of the first interval, or to the right of it. -/
theorem le_of_covers (h : Separated (s :: l)) {x : α} (hx : Covers (s :: l) x) : s.1 ≤ x := by
  rcases covers_cons.1 hx with hx | hx
  · exact hx.1
  · exact (h.head_lt.trans (h.lt_of_covers hx)).le

theorem covers_iff_of_lt (h : Separated (s :: l)) {x : α} (hx : x < s.2) :
    Covers (s :: l) x ↔ s.1 ≤ x := by
  rw [covers_cons]
  constructor
  · rintro (h' | h')
    · exact h'.1
    · exact absurd (h.lt_of_covers h') hx.not_gt
  · exact fun h' => .inl ⟨h', hx⟩

theorem cut (h : Separated (s :: l)) {a : α} (ha : a < s.2) : Separated ((a, s.2) :: l) :=
  separated_cons_iff.2 ⟨ha, fun _ hx => h.lt_of_covers hx, h.tail⟩

/-- The intervals after the first one begin to the right of its left end. -/
theorem fst_le (h : Separated (s :: l)) {t : α × α} (ht : t ∈ l) : s.1 ≤ t.1 :=
  h.le_of_covers (covers_cons.2 (.inr ⟨t, ht, le_rfl, h.lt t (List.mem_cons_of_mem _ ht)⟩))

/-- The last interval may be replaced by one that begins at the same point. -/
theorem concat_of_fst_eq {t : α × α} (h : Separated (l ++ [s])) (hfst : t.1 = s.1)
    (hlt : t.1 < t.2) : Separated (l ++ [t]) := by
  obtain ⟨hl, hgap⟩ := h
  obtain ⟨hpair, -, hlast⟩ := List.pairwise_append.1 hgap
  refine ⟨fun u hu => ?_, List.pairwise_append.2 ⟨hpair, List.pairwise_singleton _ _, ?_⟩⟩
  · rcases List.mem_append.1 hu with hu | hu
    · exact hl u (List.mem_append_left _ hu)
    · rw [List.mem_singleton.1 hu]
      exact hlt
  · intro u hu v hv
    rw [List.mem_singleton.1 hv, hfst]
    exact hlast u hu s (List.mem_singleton_self s)

/-- An interval may be added on the right if it begins after the last one. -/
theorem concat {t : α × α} (h : Separated (l ++ [s])) (hst : s.2 < t.1) (hlt : t.1 < t.2) :
    Separated (l ++ [s] ++ [t]) := by
  obtain ⟨hl, hgap⟩ := h
  obtain ⟨-, -, hlast⟩ := List.pairwise_append.1 hgap
  refine ⟨fun u hu => ?_, List.pairwise_append.2 ⟨hgap, List.pairwise_singleton _ _, ?_⟩⟩
  · rcases List.mem_append.1 hu with hu | hu
    · exact hl u hu
    · rw [List.mem_singleton.1 hu]
      exact hlt
  · intro u hu v hv
    rw [List.mem_singleton.1 hv]
    rcases List.mem_append.1 hu with hu | hu
    · have hus := hlast u hu s (List.mem_singleton_self s)
      have hs := hl s (List.mem_append_right _ (List.mem_singleton_self s))
      exact (hus.trans hs).trans hst
    · rw [List.mem_singleton.1 hu]
      exact hst

end Separated

theorem separated_singleton {s : α × α} (h : s.1 < s.2) : Separated [s] :=
  separated_cons_iff.2 ⟨h, fun x hx => absurd hx (not_covers_nil x), separated_nil⟩

/-- The first points of lists with the same points are the same. -/
private theorem Separated.fst_le_fst {s t : α × α} {l m : List (α × α)} (hl : Separated (s :: l))
    (hm : Separated (t :: m)) (h : ∀ x, Covers (s :: l) x ↔ Covers (t :: m) x) : s.1 ≤ t.1 :=
  hl.le_of_covers ((h t.1).2 (covers_cons.2 (.inl ⟨le_rfl, hm.head_lt⟩)))

private theorem Separated.snd_le_snd {s t : α × α} {l m : List (α × α)} (hl : Separated (s :: l))
    (hm : Separated (t :: m)) (h : ∀ x, Covers (s :: l) x ↔ Covers (t :: m) x) : s.2 ≤ t.2 := by
  by_contra hlt
  -- the end of the second interval is a point of the first one
  have ht := (h t.2).1 (covers_cons.2 (.inl
    ⟨(hl.fst_le_fst hm h).trans hm.head_lt.le, not_le.1 hlt⟩))
  exact lt_irrefl _ (hm.lt_of_covers ((covers_cons_of_le le_rfl).1 ht))

/-- **The canonical form of a set of points is unique.** -/
theorem Separated.eq_of_covers {l m : List (α × α)} (hl : Separated l) (hm : Separated m)
    (h : ∀ x, Covers l x ↔ Covers m x) : l = m := by
  induction l generalizing m with
  | nil =>
    cases m with
    | nil => rfl
    | cons t m => exact absurd ((h t.1).2 (covers_cons.2 (.inl ⟨le_rfl, hm.head_lt⟩))) (by simp)
  | cons s l ih =>
    cases m with
    | nil => exact absurd ((h s.1).1 (covers_cons.2 (.inl ⟨le_rfl, hl.head_lt⟩))) (by simp)
    | cons t m =>
      have h' : ∀ x, Covers (t :: m) x ↔ Covers (s :: l) x := fun x => (h x).symm
      obtain rfl : s = t := Prod.ext (le_antisymm (hl.fst_le_fst hm h) (hm.fst_le_fst hl h'))
        (le_antisymm (hl.snd_le_snd hm h) (hm.snd_le_snd hl h'))
      refine congrArg _ (ih hl.tail hm.tail fun x => ⟨fun hx => ?_, fun hx => ?_⟩)
      · have hle := (hl.lt_of_covers hx).le
        exact (covers_cons_of_le hle).1 ((h x).1 ((covers_cons_of_le hle).2 hx))
      · have hle := (hm.lt_of_covers hx).le
        exact (covers_cons_of_le hle).1 ((h x).2 ((covers_cons_of_le hle).2 hx))

/-- **A band**: intervals between two heights. -/
structure Band (α : Type*) [LinearOrder α] where
  top : α
  bottom : α
  spans : List (α × α)
  top_lt : top < bottom
  ne_nil : spans ≠ []
  separated : Separated spans

namespace Band

/-- The point is in the band. -/
def Covers (b : Band α) (x y : α) : Prop := b.top ≤ y ∧ y < b.bottom ∧ Bands.Covers b.spans x

/-- The band `c` may stand below `b`: it does not begin above its end, and does not continue it. -/
def Follows (b c : Band α) : Prop := b.bottom ≤ c.top ∧ (b.bottom = c.top → b.spans ≠ c.spans)

/-- The band `c` continues `b`. -/
def Continues (b c : Band α) : Prop := b.bottom = c.top ∧ b.spans = c.spans

instance decidableContinues (b c : Band α) : Decidable (b.Continues c) :=
  inferInstanceAs (Decidable (_ ∧ _))

/-- The band `b` down to the end of `c`, which continues it. -/
def join (b c : Band α) (h : b.Continues c) : Band α :=
  ⟨b.top, c.bottom, b.spans, b.top_lt.trans (h.1 ▸ c.top_lt), b.ne_nil, b.separated⟩

theorem covers_join {b c : Band α} (h : b.Continues c) {x y : α} :
    (b.join c h).Covers x y ↔ b.Covers x y ∨ c.Covers x y := by
  obtain ⟨hy, hs⟩ := h
  have hb := b.top_lt
  have hc := c.top_lt
  simp only [Covers, join, ← hs]
  constructor
  · rintro ⟨htop, hbot, hx⟩
    rcases lt_or_ge y b.bottom with hlt | hge
    · exact .inl ⟨htop, hlt, hx⟩
    · exact .inr ⟨hy ▸ hge, hbot, hx⟩
  · rintro (⟨htop, hbot, hx⟩ | ⟨htop, hbot, hx⟩)
    · exact ⟨htop, hbot.trans (hy ▸ hc), hx⟩
    · exact ⟨(hb.trans_le (hy ▸ htop)).le, hbot, hx⟩

/-- The band from `y` on, if it begins above. -/
def clip (b : Band α) (y : α) (h : y < b.bottom) : Band α :=
  ⟨max b.top y, b.bottom, b.spans, max_lt b.top_lt h, b.ne_nil, b.separated⟩

theorem covers_clip {b : Band α} {y₀ : α} (h : y₀ < b.bottom) {x y : α} :
    (b.clip y₀ h).Covers x y ↔ y₀ ≤ y ∧ b.Covers x y := by
  simp only [Covers, clip, max_le_iff]
  tauto

theorem exists_covers (b : Band α) : ∃ x, b.Covers x b.top := by
  obtain ⟨s, hs⟩ := List.exists_mem_of_ne_nil _ b.ne_nil
  exact ⟨s.1, le_rfl, b.top_lt, s, hs, le_rfl, b.separated.lt s hs⟩

end Band

/-- **Bands in canonical form.** -/
def Banded (D : List (Band α)) : Prop := D.IsChain Band.Follows

/-- The point is in one of the bands. -/
def CoversIn (D : List (Band α)) (x y : α) : Prop := ∃ b ∈ D, b.Covers x y

@[simp] theorem not_coversIn_nil (x y : α) : ¬ CoversIn [] x y := fun h => by simp [CoversIn] at h

@[simp] theorem coversIn_cons {b : Band α} {D : List (Band α)} {x y : α} :
    CoversIn (b :: D) x y ↔ b.Covers x y ∨ CoversIn D x y := by
  simp [CoversIn]

theorem coversIn_append {D E : List (Band α)} {x y : α} :
    CoversIn (D ++ E) x y ↔ CoversIn D x y ∨ CoversIn E x y := by
  simp [CoversIn, or_and_right, exists_or]

namespace Banded

theorem nil : Banded ([] : List (Band α)) := List.isChain_nil

theorem tail {b : Band α} {D : List (Band α)} (h : Banded (b :: D)) : Banded D := by
  have h := List.IsChain.tail h
  exact h

theorem bottom_le {b : Band α} {D : List (Band α)} (h : Banded (b :: D)) {c : Band α}
    (hc : c ∈ D) : b.bottom ≤ c.top := by
  induction D generalizing b with
  | nil => cases hc
  | cons d D ih =>
    obtain ⟨hbd, hD⟩ := List.isChain_cons_cons.1 h
    rcases List.mem_cons.1 hc with rfl | hc
    · exact hbd.1
    · exact (hbd.1.trans d.top_lt.le).trans (ih hD hc)

theorem bottom_le_of_coversIn {b : Band α} {D : List (Band α)} (h : Banded (b :: D)) {x y : α}
    (hxy : CoversIn D x y) : b.bottom ≤ y := by
  obtain ⟨c, hc, htop, -⟩ := hxy
  exact (h.bottom_le hc).trans htop

theorem top_le_of_coversIn {b : Band α} {D : List (Band α)} (h : Banded (b :: D)) {x y : α}
    (hxy : CoversIn (b :: D) x y) : b.top ≤ y := by
  rcases coversIn_cons.1 hxy with hb | hD
  · exact hb.1
  · exact b.top_lt.le.trans (h.bottom_le_of_coversIn hD)

theorem lt_bottom_of_coversIn {d : Band α} {D : List (Band α)} (h : Banded (D ++ [d])) {x y : α}
    (hxy : CoversIn (D ++ [d]) x y) : y < d.bottom := by
  induction D with
  | nil =>
    obtain ⟨b, hb, hxy⟩ := hxy
    rw [List.mem_singleton.1 hb] at hxy
    exact hxy.2.1
  | cons c D ih =>
    rcases coversIn_cons.1 hxy with hc | hD
    · exact hc.2.1.trans_le ((h.bottom_le (by simp)).trans d.top_lt.le)
    · exact ih h.tail hD

end Banded

namespace Banded

variable {b c : Band α} {D E : List (Band α)}

/-- At the height of the first band its intervals are all there is. -/
theorem coversIn_row (h : Banded (b :: D)) {x y : α} (htop : b.top ≤ y) (hbot : y < b.bottom) :
    CoversIn (b :: D) x y ↔ Bands.Covers b.spans x := by
  rw [coversIn_cons]
  constructor
  · rintro (hb | hD)
    · exact hb.2.2
    · exact absurd (h.bottom_le_of_coversIn hD) hbot.not_ge
  · exact fun hx => .inl ⟨htop, hbot, hx⟩

/-- The points of the other bands are those from the end of the first one on. -/
theorem coversIn_tail (h : Banded (b :: D)) {x y : α} :
    CoversIn D x y ↔ b.bottom ≤ y ∧ CoversIn (b :: D) x y := by
  constructor
  · exact fun hD => ⟨h.bottom_le_of_coversIn hD, coversIn_cons.2 (.inr hD)⟩
  · rintro ⟨hy, hxy⟩
    rcases coversIn_cons.1 hxy with hb | hD
    · exact absurd hb.2.1 hy.not_gt
    · exact hD

private theorem top_le_top (hD : Banded (b :: D)) (h : ∀ x y, CoversIn (b :: D) x y ↔
    CoversIn (c :: E) x y) : b.top ≤ c.top := by
  obtain ⟨x, hx⟩ := c.exists_covers
  exact hD.top_le_of_coversIn ((h x _).2 (coversIn_cons.2 (.inl hx)))

/-- Below its first band a list in canonical form has not the points of that band. -/
private theorem bottom_le_bottom (hD : Banded (b :: D)) (hE : Banded (c :: E))
    (h : ∀ x y, CoversIn (b :: D) x y ↔ CoversIn (c :: E) x y) (htop : b.top = c.top)
    (hspans : b.spans = c.spans) : b.bottom ≤ c.bottom := by
  by_contra hlt
  have hlt := not_le.1 hlt
  have hrow : ∀ x, CoversIn E x c.bottom ↔ Bands.Covers c.spans x := fun x => by
    rw [hE.coversIn_tail, ← h, hD.coversIn_row (htop ▸ c.top_lt.le) hlt, hspans]
    exact and_iff_right le_rfl
  -- so the next band begins there, with the same intervals
  cases E with
  | nil =>
    obtain ⟨x, hx⟩ := c.exists_covers
    exact not_coversIn_nil _ _ ((hrow x).2 hx.2.2)
  | cons d E =>
    obtain ⟨hcd, hE'⟩ := List.isChain_cons_cons.1 hE
    have hdtop : d.top = c.bottom := by
      obtain ⟨x, hx⟩ := c.exists_covers
      exact le_antisymm (top_le_of_coversIn hE' ((hrow x).2 hx.2.2)) hcd.1
    refine hcd.2 hdtop.symm (c.separated.eq_of_covers d.separated fun x => ?_)
    rw [← hrow, coversIn_row hE' hdtop.le (hdtop ▸ d.top_lt)]

/-- **The canonical form of a set of points is unique.** -/
theorem eq_of_coversIn (hD : Banded D) (hE : Banded E)
    (h : ∀ x y, CoversIn D x y ↔ CoversIn E x y) : D = E := by
  induction D generalizing E with
  | nil =>
    cases E with
    | nil => rfl
    | cons c E =>
      obtain ⟨x, hx⟩ := c.exists_covers
      exact absurd ((h x _).2 (coversIn_cons.2 (.inl hx))) (not_coversIn_nil _ _)
  | cons b D ih =>
    cases E with
    | nil =>
      obtain ⟨x, hx⟩ := b.exists_covers
      exact absurd ((h x _).1 (coversIn_cons.2 (.inl hx))) (not_coversIn_nil _ _)
    | cons c E =>
      have h' : ∀ x y, CoversIn (c :: E) x y ↔ CoversIn (b :: D) x y := fun x y => (h x y).symm
      have htop : b.top = c.top := le_antisymm (hD.top_le_top h) (hE.top_le_top h')
      have hspans : b.spans = c.spans := b.separated.eq_of_covers c.separated fun x => by
        rw [← hD.coversIn_row le_rfl b.top_lt, h, hE.coversIn_row htop.ge (htop ▸ c.top_lt)]
      have hbottom : b.bottom = c.bottom := le_antisymm
        (hD.bottom_le_bottom hE h htop hspans) (hE.bottom_le_bottom hD h' htop.symm hspans.symm)
      obtain rfl : b = c := by
        cases b
        cases c
        simp_all
      refine congrArg _ (ih hD.tail hE.tail fun x y => ?_)
      rw [hD.coversIn_tail, hE.coversIn_tail, h]

end Banded

/-- The band `b` below the bands `D`. -/
def push : List (Band α) → Band α → List (Band α)
  | [], b => [b]
  | [d], b => if h : d.Continues b then [d.join b h] else [d, b]
  | d :: e :: D, b => d :: push (e :: D) b

theorem push_concat_of_continues {D : List (Band α)} {d b : Band α} (h : d.Continues b) :
    push (D ++ [d]) b = D ++ [d.join b h] := by
  induction D with
  | nil => simp [push, h]
  | cons e D ih =>
    cases D with
    | nil => simp [push, h]
    | cons f D => simpa [push] using ih

theorem push_concat_of_not_continues {D : List (Band α)} {d b : Band α} (h : ¬ d.Continues b) :
    push (D ++ [d]) b = D ++ [d, b] := by
  induction D with
  | nil => simp [push, h]
  | cons e D ih =>
    cases D with
    | nil => simp [push, h]
    | cons f D => simpa [push] using ih

theorem push_of_lt {D : List (Band α)} {b : Band α} (h : ∀ d ∈ D, d.bottom < b.top) :
    push D b = D ++ [b] := by
  rcases List.eq_nil_or_concat' D with rfl | ⟨D, d, rfl⟩
  · rfl
  · rw [push_concat_of_not_continues fun hc => (h d (by simp)).ne hc.1, List.append_assoc]
    rfl

theorem coversIn_push {D : List (Band α)} {b : Band α} {x y : α} :
    CoversIn (push D b) x y ↔ CoversIn D x y ∨ b.Covers x y := by
  induction D, b using push.induct with
  | case1 b => simp [push]
  | case2 d b h => simp [push, h, Band.covers_join]
  | case3 d b h => simp [push, h]
  | case4 d e D b ih => simp [push, ih, or_assoc]

/-- The bands that were there keep their tops, the last one ends with `b`. -/
theorem bottom_le_of_mem_push {D : List (Band α)} {b c : Band α} (hD : ∀ d ∈ D, d.bottom ≤ b.top)
    (hc : c ∈ push D b) : c.bottom ≤ b.bottom := by
  induction D, b using push.induct with
  | case1 b => rw [List.mem_singleton.1 hc]
  | case2 d b h =>
    simp only [push, h, dif_pos, List.mem_singleton] at hc
    rw [hc]
    exact le_rfl
  | case3 d b h =>
    simp only [push, h, dif_neg, not_false_iff, List.mem_cons, List.not_mem_nil, or_false] at hc
    rcases hc with rfl | rfl
    · exact (hD _ List.mem_cons_self).trans b.top_lt.le
    · exact le_rfl
  | case4 d e D b ih =>
    rcases List.mem_cons.1 hc with rfl | hc
    · exact (hD _ List.mem_cons_self).trans b.top_lt.le
    · exact ih (fun f hf => hD f (List.mem_cons_of_mem _ hf)) hc

/-- The first band of `push D b` is that of `D`, perhaps longer. -/
theorem push_cons {d : Band α} {D : List (Band α)} {b : Band α} :
    ∃ d' D', push (d :: D) b = d' :: D' ∧ d'.top = d.top ∧ d'.spans = d.spans := by
  cases D with
  | nil =>
    by_cases h : d.Continues b
    · exact ⟨d.join b h, [], by simp [push, h], rfl, rfl⟩
    · exact ⟨d, [b], by simp [push, h], rfl, rfl⟩
  | cons e D => exact ⟨d, _, rfl, rfl, rfl⟩

/-- **A pushed band keeps the form, also with bands that follow it.** -/
theorem Banded.push_append {D E : List (Band α)} {b : Band α} (hD : Banded D)
    (hle : ∀ d ∈ D, d.bottom ≤ b.top) (hE : Banded (b :: E)) : Banded (push D b ++ E) := by
  induction D, b using push.induct with
  | case1 b => exact hE
  | case2 d b h =>
    simp only [push, h, dif_pos]
    cases E with
    | nil => exact List.isChain_singleton _
    | cons e E =>
      obtain ⟨hbe, hE⟩ := List.isChain_cons_cons.1 hE
      exact List.isChain_cons_cons.2 ⟨⟨hbe.1, fun hy => h.2 ▸ hbe.2 hy⟩, hE⟩
  | case3 d b h =>
    simp only [push, h, dif_neg, not_false_iff]
    exact List.isChain_cons_cons.2
      ⟨⟨hle d List.mem_cons_self, fun hy hs => h ⟨hy, hs⟩⟩, hE⟩
  | case4 d e D b ih =>
    obtain ⟨hde, hD⟩ := List.isChain_cons_cons.1 hD
    have hrest := ih hD (fun f hf => hle f (List.mem_cons_of_mem _ hf)) hE
    obtain ⟨e', D', hpush, htop, hspans⟩ := push_cons (d := e) (D := D) (b := b)
    simp only [push, hpush, List.cons_append] at hrest ⊢
    refine List.isChain_cons_cons.2 ⟨⟨htop ▸ hde.1, fun hy => ?_⟩, hrest⟩
    rw [hspans]
    exact hde.2 (hy.trans htop)

theorem Banded.push {D : List (Band α)} {b : Band α} (hD : Banded D)
    (hle : ∀ d ∈ D, d.bottom ≤ b.top) : Banded (Bands.push D b) := by
  have h := hD.push_append hle (List.isChain_singleton b)
  rwa [List.append_nil] at h

/-! ### The bounding box -/

/-- **The least rectangle that contains the points of `P`**, whose right and bottom sides do not
belong to it. -/
structure Bounds (P : α → α → Prop) (left top right bottom : α) : Prop where
  left : IsLeast {x | ∃ y, P x y} left
  top : IsLeast {y | ∃ x, P x y} top
  right : IsLeast {r | ∀ x y, P x y → x < r} right
  bottom : IsLeast {b | ∀ x y, P x y → y < b} bottom

namespace Bounds

variable {P Q : α → α → Prop} {l t r b l' t' r' b' : α}

theorem congr (h : Bounds P l t r b) (hPQ : ∀ x y, P x y ↔ Q x y) : Bounds Q l t r b := by
  obtain rfl : P = Q := funext fun x => funext fun y => propext (hPQ x y)
  exact h

theorem mem (h : Bounds P l t r b) {x y : α} (hxy : P x y) : (l ≤ x ∧ x < r) ∧ t ≤ y ∧ y < b :=
  ⟨⟨h.left.2 ⟨y, hxy⟩, h.right.1 x y hxy⟩, h.top.2 ⟨x, hxy⟩, h.bottom.1 x y hxy⟩

theorem or (hP : Bounds P l t r b) (hQ : Bounds Q l' t' r' b') :
    Bounds (fun x y => P x y ∨ Q x y) (min l l') (min t t') (max r r') (max b b') where
  left := by
    have h := hP.left.union hQ.left
    simpa only [exists_or, Set.ofPred_or] using h
  top := by
    have h := hP.top.union hQ.top
    simpa only [exists_or, Set.ofPred_or] using h
  right := by
    refine ⟨fun x y h => ?_, fun e he => max_le ?_ ?_⟩
    · rcases h with h | h
      · exact (hP.right.1 x y h).trans_le (le_max_left _ _)
      · exact (hQ.right.1 x y h).trans_le (le_max_right _ _)
    · exact hP.right.2 fun x y h => he x y (.inl h)
    · exact hQ.right.2 fun x y h => he x y (.inr h)
  bottom := by
    refine ⟨fun x y h => ?_, fun e he => max_le ?_ ?_⟩
    · rcases h with h | h
      · exact (hP.bottom.1 x y h).trans_le (le_max_left _ _)
      · exact (hQ.bottom.1 x y h).trans_le (le_max_right _ _)
    · exact hP.bottom.2 fun x y h => he x y (.inl h)
    · exact hQ.bottom.2 fun x y h => he x y (.inr h)

end Bounds

end Bands

end Swinx
