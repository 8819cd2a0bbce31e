import Swinx.LTS.Basic
import Swinx.Region.RoundRect
import Swinx.Region.Scan

/-!
# `EqualRgn`

`EqualRgn` compares the numbers of rectangles, the bounding boxes and the rectangles.  So it
compares the points of the regions as long as all of them are tight, and that is what the
constructors and the operations keep, except for two: `CreateRoundRectRgn` makes a rectangle of
each row, also of rows that could be merged, and `create_polypolygon_region` leaves rectangles that
touch side by side if it fills by the winding rule.

* `equalRegions_iff` — `EqualRgn` on tight regions.
* `sound_of_mergeable` — `EqualRgn` in all states of a run.
-/

namespace Swinx

namespace Region

open Bands

/-- All sides of the rectangles are the same. -/
def sameSides (r1 r2 : RECT) : Bool :=
  r1.left == r2.left && r1.right == r2.right && r1.top == r2.top && r1.bottom == r2.bottom

/-- `EqualRgn` on two regions. -/
def equalRegions (obj1 obj2 : WINEREGION) : Bool :=
  if obj1.numRects ≠ obj2.numRects then false
  else if obj1.numRects = 0 then true
  else if sameSides obj1.extents obj2.extents = false then false
  else (obj1.rects.zip obj2.rects).all fun p => sameSides p.1 p.2

theorem sameSides_iff {r1 r2 : RECT} : sameSides r1 r2 = true ↔ r1 = r2 := by
  cases r1
  cases r2
  simp only [sameSides, Bool.and_eq_true, beq_iff_eq, RECT.mk.injEq]
  tauto

theorem all_sameSides_iff {l m : List RECT} (h : l.length = m.length) :
    (l.zip m).all (fun p => sameSides p.1 p.2) = true ↔ l = m := by
  induction l generalizing m with
  | nil =>
    obtain rfl := List.length_eq_zero_iff.1 h.symm
    simp
  | cons r l ih =>
    cases m with
    | nil => cases h
    | cons s m =>
      rw [List.zip_cons_cons, List.all_cons, Bool.and_eq_true, sameSides_iff,
        ih (Nat.succ.inj h), List.cons.injEq]

/-- **`EqualRgn` compares the points of tight regions.** -/
theorem equalRegions_iff {obj1 obj2 : WINEREGION} (h1 : obj1.Tight) (h2 : obj2.Tight) :
    equalRegions obj1 obj2 = true ↔ ∀ x y, obj1.Covers x y ↔ obj2.Covers x y := by
  unfold equalRegions
  constructor
  · intro heq x y
    refine covers_congr ?_ x y
    split_ifs at heq with hnum hnil hext
    · have hnil2 : obj2.numRects = 0 := (not_not.1 hnum).symm.trans hnil
      exact (List.length_eq_zero_iff.1 hnil).trans (List.length_eq_zero_iff.1 hnil2).symm
    · exact (all_sameSides_iff (not_not.1 hnum)).1 heq
  · intro hcov
    have hrects := rects_eq_of_covers h1 h2 hcov
    have hnum : obj1.numRects = obj2.numRects := congrArg List.length hrects
    rw [if_neg (not_not.2 hnum)]
    split_ifs with hnil hext
    · rfl
    · rw [← Bool.not_eq_true, sameSides_iff] at hext
      exact absurd (extents_eq_of_covers h1 h2 hcov (rects_ne_nil hnil)) hext
    · exact (all_sameSides_iff hnum).2 hrects

/-- The regions of the handles. -/
abbrev Regions := ℕ → Option WINEREGION

/-- `EqualRgn` -/
def equalRgn (s : Regions) (hrgn1 hrgn2 : ℕ) : Bool :=
  match s hrgn1, s hrgn2 with
  | some obj1, some obj2 => equalRegions obj1 obj2
  | _, _ => false

/-- A call that makes or changes regions.  A constructor is given the handle that it returns if it
does not fail, and `junk` is what the memory of a new array holds. -/
inductive Act
  | createRectRgn (hrgn : ℕ) (left top right bottom : ℤ)
  | createRoundRectRgn (hrgn : ℕ) (junk : ℕ → RECT)
      (left top right bottom ellipse_width ellipse_height : ℤ)
  | createEllipticRgn (hrgn : ℕ) (junk : ℕ → RECT) (left top right bottom : ℤ)
  | createPolygonRgn (hrgn : ℕ) (pts : List POINT) (mode : PolyFillMode)
  | extCreateRegion (hrgn : ℕ) (xform : Option (POINT → POINT)) (rects : List RECT)
  | combineRgn (hDest hSrc1 hSrc2 : ℕ) (mode : ℕ)
  | offsetRgn (hrgn : ℕ) (x y : ℤ)
  | setRectRgn (hrgn : ℕ) (left top right bottom : ℤ)
  | mirrorRegion (dst src : ℕ) (width : ℤ)

/-- The result of a constructor, under a handle that is not in use. -/
def create (s : Regions) (hrgn : ℕ) (result : Option (Option WINEREGION)) : Option Regions :=
  if s hrgn = none then
    result.map fun obj =>
      match obj with
      | some obj => Function.update s hrgn (some obj)
      | none => s
  else none

/-- The regions as memory, behind pointers to those of the handles. -/
def memory (s : Regions) : Mem ℕ
  | .obj hrgn => (s hrgn).getD defaultRegion
  | _ => defaultRegion

/-- `CombineRgn` on the regions of the handles. -/
def combine (s : Regions) (hDest hSrc1 hSrc2 mode : ℕ) : Option Regions :=
  match combineRgn (fun hrgn => (s hrgn).map fun _ => hrgn) (memory s) hDest hSrc1 hSrc2 mode with
  | .ok (m, _) => some fun hrgn => (s hrgn).map fun _ => m (.obj hrgn)
  | .error _ => none

/-- `OffsetRgn` on the region of the handle. -/
def offset (s : Regions) (hrgn : ℕ) (x y : ℤ) : Option Regions :=
  match s hrgn with
  | some obj => (offsetRegion obj x y).map fun obj => Function.update s hrgn (some obj)
  | none => some s

/-- `mirror_region` -/
def mirror (s : Regions) (dst src : ℕ) (width : ℤ) : Option Regions :=
  match s dst, s src with
  | some dstObj, some srcObj =>
    (mirrorRegion dstObj srcObj (decide (dst = src)) width).map fun obj =>
      match obj with
      | some obj => Function.update s dst (some obj)
      | none => s
  | _, _ => some s

/-- The regions after a call; `none` if its behaviour is undefined. -/
def next (s : Regions) : Act → Option Regions
  | .createRectRgn hrgn left top right bottom =>
    create s hrgn (some (some (createRectRgn left top right bottom)))
  | .createRoundRectRgn hrgn junk left top right bottom ellipse_width ellipse_height =>
    create s hrgn
      (createRoundRectRgn junk left top right bottom ellipse_width ellipse_height)
  | .createEllipticRgn hrgn junk left top right bottom =>
    create s hrgn (createEllipticRgn junk left top right bottom)
  | .createPolygonRgn hrgn pts mode => create s hrgn (createPolygonRgn pts mode)
  | .extCreateRegion hrgn xform rects => create s hrgn (extCreateRegion xform rects)
  | .combineRgn hDest hSrc1 hSrc2 mode => combine s hDest hSrc1 hSrc2 mode
  | .offsetRgn hrgn x y => offset s hrgn x y
  | .setRectRgn hrgn left top right bottom =>
    some (Function.update s hrgn ((s hrgn).map fun obj => setRectRgn obj left top right bottom))
  | .mirrorRegion dst src width => mirror s dst src width

/-- All runs of calls. -/
def calls : LTS Regions Act := ⟨next⟩

/-- No regions. -/
def noRegions : Regions := fun _ => none

/-- **`EqualRgn` tells whether two regions have the same points.** -/
def Sound (s : Regions) : Prop :=
  ∀ hrgn1 hrgn2 obj1 obj2, s hrgn1 = some obj1 → s hrgn2 = some obj2 →
    (equalRgn s hrgn1 hrgn2 = true ↔ ∀ x y, obj1.Covers x y ↔ obj2.Covers x y)

/-- **What the call makes is merged**: the rows of a round rectangle taper, and the intervals on
the scanlines of a polygon are apart. -/
def Act.Mergeable : Act → Prop
  | .createRoundRectRgn _ _ left top right bottom ellipse_width ellipse_height =>
    tapers left top right bottom ellipse_width ellipse_height = true
  | .createEllipticRgn _ _ left top right bottom =>
    tapers left top right bottom (right - left) (bottom - top) = true
  | .createPolygonRgn _ pts mode => polygonApart pts mode = true
  | .extCreateRegion _ (some translate) rects =>
    ∀ r ∈ rects, polygonApart (corners translate r) .winding = true
  | _ => True

instance decidableMergeable (a : Act) : Decidable a.Mergeable := by
  cases a with
  | extCreateRegion hrgn xform rects =>
    cases xform with
    | none => exact inferInstanceAs (Decidable True)
    | some translate =>
      exact inferInstanceAs
        (Decidable (∀ r ∈ rects, polygonApart (corners translate r) .winding = true))
  | createRoundRectRgn => exact inferInstanceAs (Decidable (_ = _))
  | createEllipticRgn => exact inferInstanceAs (Decidable (_ = _))
  | createPolygonRgn => exact inferInstanceAs (Decidable (_ = _))
  | _ => exact inferInstanceAs (Decidable True)

/-- All regions are tight. -/
def AllTight (s : Regions) : Prop := ∀ hrgn obj, s hrgn = some obj → obj.Tight

theorem AllTight.sound {s : Regions} (h : AllTight s) : Sound s := by
  intro hrgn1 hrgn2 obj1 obj2 h1 h2
  unfold equalRgn
  rw [h1, h2]
  exact equalRegions_iff (h _ _ h1) (h _ _ h2)

theorem AllTight.update {s : Regions} (h : AllTight s) {hrgn : ℕ} {obj : WINEREGION}
    (hobj : obj.Tight) : AllTight (Function.update s hrgn (some obj)) := by
  intro hrgn' obj' h'
  by_cases heq : hrgn' = hrgn
  · rw [heq, Function.update_self] at h'
    exact Option.some.inj h' ▸ hobj
  · rw [Function.update_of_ne heq] at h'
    exact h _ _ h'

theorem create_allTight {s s' : Regions} {hrgn : ℕ} {result : Option (Option WINEREGION)}
    (h : AllTight s) (hresult : ∀ obj, result = some (some obj) → obj.Tight)
    (hn : create s hrgn result = some s') : AllTight s' := by
  unfold create at hn
  split_ifs at hn
  obtain ⟨obj, hobj, rfl⟩ := Option.map_eq_some_iff.1 hn
  cases obj with
  | none => exact h
  | some obj => exact h.update (hresult obj hobj)

theorem combine_allTight {s s' : Regions} {hDest hSrc1 hSrc2 mode : ℕ} (h : AllTight s)
    (hn : combine s hDest hSrc1 hSrc2 mode = some s') : AllTight s' := by
  unfold combine at hn
  split at hn
  · next m ret hok =>
    cases hn
    intro hrgn obj hobj
    obtain ⟨obj₀, -, rfl⟩ := Option.map_eq_some_iff.1 hobj
    refine combineRgn_tight (fun o => ?_) hok hrgn
    show ((s o).getD defaultRegion).Tight
    cases ho : s o with
    | none => exact (wellFormed_of_rects_eq_nil rfl rfl).tight
    | some obj => exact h _ _ ho
  · cases hn

theorem offset_allTight {s s' : Regions} {hrgn : ℕ} {x y : ℤ} (h : AllTight s)
    (hn : offset s hrgn x y = some s') : AllTight s' := by
  unfold offset at hn
  split at hn
  · next obj hobj =>
    obtain ⟨obj', hobj', rfl⟩ := Option.map_eq_some_iff.1 hn
    exact h.update (offsetRegion_tight (h _ _ hobj) hobj')
  · exact Option.some.inj hn ▸ h

theorem mirror_allTight {s s' : Regions} {dst src : ℕ} {width : ℤ} (h : AllTight s)
    (hn : mirror s dst src width = some s') : AllTight s' := by
  unfold mirror at hn
  split at hn
  · next dstObj srcObj hdst hsrc =>
    obtain ⟨obj, hobj, rfl⟩ := Option.map_eq_some_iff.1 hn
    cases obj with
    | none => exact h
    | some obj => exact h.update (mirrorRegion_tight (h _ _ hsrc) hobj)
  · exact Option.some.inj hn ▸ h

/-- **One call.** -/
theorem next_allTight {s s' : Regions} {a : Act} (h : AllTight s) (ha : a.Mergeable)
    (hn : next s a = some s') : AllTight s' := by
  cases a with
  | createRectRgn hrgn left top right bottom =>
    refine create_allTight h (fun obj hobj => ?_) hn
    cases hobj
    exact (setRectRgn_wellFormed _ _ _ _ _).tight
  | createRoundRectRgn hrgn junk left top right bottom width height =>
    exact create_allTight h (fun obj hobj => (createRoundRectRgn_wellFormed ha hobj).tight) hn
  | createEllipticRgn hrgn junk left top right bottom =>
    refine create_allTight h (fun obj hobj => ?_) hn
    simp only [createEllipticRgn, Option.bind_eq_bind, Option.bind_eq_some_iff] at hobj
    obtain ⟨width, hwidth, height, hheight, hobj⟩ := hobj
    rw [eq_of_int hwidth, eq_of_int hheight] at hobj
    exact (createRoundRectRgn_wellFormed ha hobj).tight
  | createPolygonRgn hrgn pts mode =>
    exact create_allTight h (fun obj hobj => createPolypolygonRegion_tight ha hobj) hn
  | extCreateRegion hrgn xform rects =>
    refine create_allTight h (fun obj hobj => extCreateRegion_tight (fun f hf => ?_) hobj) hn
    cases hf
    exact ha
  | combineRgn hDest hSrc1 hSrc2 mode => exact combine_allTight h hn
  | offsetRgn hrgn x y => exact offset_allTight h hn
  | setRectRgn hrgn left top right bottom =>
    cases hn
    cases hobj : s hrgn with
    | none =>
      rw [Option.map_none, ← hobj, Function.update_eq_self]
      exact h
    | some obj => exact h.update (setRectRgn_wellFormed _ _ _ _ _).tight
  | mirrorRegion dst src width => exact mirror_allTight h hn

/-- **In every run in which all that is made is merged, `EqualRgn` compares the points of the
regions, in every state.** -/
theorem sound_of_mergeable (acts : List Act)
    (h : calls.AllSteps (fun _ a => a.Mergeable) noRegions acts) :
    calls.AllStates Sound noRegions acts :=
  LTS.allStates_of_allSteps (I := AllTight) (fun _ hs => hs.sound)
    (fun _ _ _ hs ha hn => next_allTight hs ha hn) (fun _ _ h => by cases h) h

/-- Calls of all kinds. -/
def sampleCalls : List Act :=
  [.createRoundRectRgn 0 (fun _ => ⟨0, 0, 0, 0⟩) 0 0 11 11 8 5,
    .createPolygonRgn 1 [⟨0, 0⟩, ⟨6, 4⟩, ⟨0, 8⟩] .winding,
    .createEllipticRgn 2 (fun _ => ⟨0, 0, 0, 0⟩) 0 0 4 4,
    .extCreateRegion 3 (some fun p => ⟨p.x + p.y, p.y - p.x⟩) [⟨0, 0, 2, 3⟩],
    .combineRgn 0 0 1 RGN_XOR, .offsetRgn 1 (-3) 2, .mirrorRegion 2 1 9, .setRectRgn 3 5 5 2 2]

theorem sound_sampleCalls : calls.AllStates Sound noRegions sampleCalls :=
  sound_of_mergeable sampleCalls (by decide +kernel)

/-! ### An ellipse -/

/-- The ellipse that is the square of side 2, made of two rows. -/
def twoRows : WINEREGION :=
  ⟨4, [⟨0, 0, 2, 1⟩, ⟨0, 1, 2, 2⟩], ⟨0, 0, 2, 2⟩, le_rfl, by decide⟩

/-- The square of side 2. -/
def twoSquare : WINEREGION := ⟨4, [⟨0, 0, 2, 2⟩], ⟨0, 0, 2, 2⟩, le_rfl, by decide⟩

/-- An ellipse and a rectangle with the same points, which are not equal for `EqualRgn`. -/
theorem ellipse_not_equal : ∃ s, calls.run noRegions
      [.createEllipticRgn 0 (fun _ => ⟨0, 0, 0, 0⟩) 0 0 3 3, .createRectRgn 1 0 0 2 2] = some s ∧
    s 0 = some twoRows ∧ s 1 = some twoSquare ∧
      (∀ x y, twoRows.Covers x y ↔ twoSquare.Covers x y) ∧ equalRgn s 0 1 = false ∧
        ¬ Sound s := by
  have hcov : ∀ x y, twoRows.Covers x y ↔ twoSquare.Covers x y := fun x y => by
    simp only [WINEREGION.Covers, twoRows, twoSquare, List.mem_cons, List.not_mem_nil, or_false,
      exists_eq_or_imp, exists_eq_left]
    omega
  have hrun : ∃ s, calls.run noRegions
      [.createEllipticRgn 0 (fun _ => ⟨0, 0, 0, 0⟩) 0 0 3 3, .createRectRgn 1 0 0 2 2] = some s ∧
      s 0 = some twoRows ∧ s 1 = some twoSquare ∧ equalRgn s 0 1 = false :=
    ⟨_, rfl, by decide +kernel, by decide +kernel, by decide +kernel⟩
  obtain ⟨s, hs, h0, h1, heq⟩ := hrun
  refine ⟨s, hs, h0, h1, hcov, heq, fun hsound => ?_⟩
  rw [(hsound 0 1 _ _ h0 h1).2 hcov] at heq
  cases heq

end Region

end Swinx
