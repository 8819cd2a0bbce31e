import Mathlib.Algebra.Order.Ring.Int
import Mathlib.Tactic.Linarith
import Mathlib.Tactic.SplitIfs

/-!
# The blit into the framebuffer

`commitCanvas` copies a rectangle of the canvas of a window to the place of the window on the
screen.  The rectangle is clipped to the canvas, moved to the screen and clipped again; the rows are
copied between two memories in which the pixels stand row by row.  Coordinates are integers, as long
as the sums do not overflow.

* `index_iff` — a place in a row of a memory.
* `copyRows_get` — what the copied rows leave in a pixel.
* `commitCanvas_faithful` — every call is faithful.
-/

namespace Swinx

namespace Blit

/-- `RECT` -/
structure RECT where
  left : ℤ
  top : ℤ
  right : ℤ
  bottom : ℤ
  deriving DecidableEq, Repr

/-- The image surface of a window; a row of the memory is not shorter than one of the image. -/
structure Canvas where
  sw : ℕ
  sh : ℕ
  /-- The pixels of a row in the memory. -/
  stride : ℕ
  srcBase : ℤ → UInt32
  sw_le_stride : sw ≤ stride

/-- The size of the screen, `SWINX_FB_WIDTH` and `SWINX_FB_HEIGHT`. -/
structure Framebuffer where
  width : ℕ
  height : ℕ

/-- `clip rc to the window canvas` -/
def clipCanvas (canvas : Canvas) (rc : RECT) : RECT where
  left := if rc.left < 0 then 0 else rc.left
  top := if rc.top < 0 then 0 else rc.top
  right := if rc.right > canvas.sw then canvas.sw else rc.right
  bottom := if rc.bottom > canvas.sh then canvas.sh else rc.bottom

/-- The rectangle on the screen. -/
def toScreen (ox oy : ℤ) (rcSrc : RECT) : RECT where
  left := ox + rcSrc.left
  top := oy + rcSrc.top
  right := ox + rcSrc.right
  bottom := oy + rcSrc.bottom

/-- The source begins where the screen does. -/
def clipSource (rcSrc rcFb : RECT) : RECT where
  left := if rcFb.left < 0 then rcSrc.left - rcFb.left else rcSrc.left
  top := if rcFb.top < 0 then rcSrc.top - rcFb.top else rcSrc.top
  right := rcSrc.right
  bottom := rcSrc.bottom

/-- The rectangle on the screen is clipped to the framebuffer. -/
def clipScreen (fb : Framebuffer) (rcFb : RECT) : RECT where
  left := if rcFb.left < 0 then 0 else rcFb.left
  top := if rcFb.top < 0 then 0 else rcFb.top
  right := if rcFb.right > fb.width then fb.width else rcFb.right
  bottom := if rcFb.bottom > fb.height then fb.height else rcFb.bottom

def RECT.isEmpty (rc : RECT) : Prop := rc.left ≥ rc.right ∨ rc.top ≥ rc.bottom

instance decidableIsEmpty (rc : RECT) : Decidable rc.isEmpty :=
  inferInstanceAs (Decidable (_ ∨ _))

/-- `memcpy` of `n` pixels. -/
def memcpy (dst : ℤ → UInt32) (d : ℤ) (src : ℤ → UInt32) (s : ℤ) (n : ℤ) : ℤ → UInt32 :=
  fun k => if d ≤ k ∧ k < d + n then src (s + (k - d)) else dst k

/-- What a call does. -/
structure Commit where
  /-- The memory of the framebuffer afterwards. -/
  bits : ℤ → UInt32
  /-- The runs of pixels that are read, each with its first place and its length. -/
  reads : List (ℤ × ℤ)
  /-- The runs that are written. -/
  writes : List (ℤ × ℤ)
  /-- The rectangle that is reported. -/
  dirty : Option RECT

section

variable (canvas : Canvas) (fb : Framebuffer) (rcSrc rcFb : RECT)

/-- Where the row `y` of the source begins. -/
def srcRow (y : ℕ) : ℤ := (rcSrc.top + y) * canvas.stride + rcSrc.left

/-- Where the row `y` on the screen begins. -/
def fbRow (y : ℕ) : ℤ := (rcFb.top + y) * fb.width + rcFb.left

/-- The loop over the first `n` rows. -/
def copyRows (bits : ℤ → UInt32) : ℕ → ℤ → UInt32
  | 0 => bits
  | y + 1 =>
    memcpy (copyRows bits y) (fbRow fb rcFb y) canvas.srcBase (srcRow canvas rcSrc y)
      (rcFb.right - rcFb.left)

end

/-- A call that does nothing. -/
def Commit.nothing (bits : ℤ → UInt32) : Commit := ⟨bits, [], [], none⟩

/-- `commitCanvas` for a window at `(ox, oy)`; without a canvas nothing is done. -/
def commitCanvas (canvas : Option Canvas) (fb : Framebuffer) (ox oy : ℤ) (rc : RECT)
    (bits : ℤ → UInt32) : Commit :=
  match canvas with
  | none => .nothing bits
  | some canvas =>
    let rcSrc := clipCanvas canvas rc
    if rcSrc.isEmpty then .nothing bits
    else
      let rcFb := toScreen ox oy rcSrc
      let rcSrc := clipSource rcSrc rcFb
      let rcFb := clipScreen fb rcFb
      if rcFb.isEmpty then .nothing bits
      else
        let w := rcFb.right - rcFb.left
        let rows := (rcFb.bottom - rcFb.top).toNat
        { bits := copyRows canvas fb rcSrc rcFb bits rows
          reads := (List.range rows).map fun y => (srcRow canvas rcSrc y, w)
          writes := (List.range rows).map fun y => (fbRow fb rcFb y, w)
          dirty := some rcFb }

/-! ### What is to be copied -/

/-- The pixel is in the rectangle. -/
def RECT.Has (rc : RECT) (x y : ℤ) : Prop :=
  rc.left ≤ x ∧ x < rc.right ∧ rc.top ≤ y ∧ y < rc.bottom

def Canvas.Has (canvas : Canvas) (x y : ℤ) : Prop :=
  0 ≤ x ∧ x < canvas.sw ∧ 0 ≤ y ∧ y < canvas.sh

def Framebuffer.Has (fb : Framebuffer) (X Y : ℤ) : Prop :=
  0 ≤ X ∧ X < fb.width ∧ 0 ≤ Y ∧ Y < fb.height

/-- The place of a pixel in the memory of the canvas. -/
def Canvas.index (canvas : Canvas) (x y : ℤ) : ℤ := y * canvas.stride + x

/-- The place of a pixel in the memory of the framebuffer. -/
def Framebuffer.index (fb : Framebuffer) (X Y : ℤ) : ℤ := Y * fb.width + X

/-- **The pixels of the screen that are to change**: on screen, and the pixel of the canvas is in
the rectangle and in the canvas. -/
def Shown (canvas : Canvas) (fb : Framebuffer) (ox oy : ℤ) (rc : RECT) (X Y : ℤ) : Prop :=
  fb.Has X Y ∧ rc.Has (X - ox) (Y - oy) ∧ canvas.Has (X - ox) (Y - oy)

/-- **A faithful call**: it reads in the canvas and writes in the framebuffer; the pixels that are
to change are those of the canvas, all others stay; they are reported as a rectangle, if there are
any. -/
structure Faithful (canvas : Canvas) (fb : Framebuffer) (ox oy : ℤ) (rc : RECT)
    (bits : ℤ → UInt32) (c : Commit) : Prop where
  reads : ∀ run ∈ c.reads, ∀ k, run.1 ≤ k → k < run.1 + run.2 →
    ∃ x y, canvas.Has x y ∧ k = canvas.index x y
  writes : ∀ run ∈ c.writes, ∀ k, run.1 ≤ k → k < run.1 + run.2 →
    ∃ X Y, fb.Has X Y ∧ k = fb.index X Y
  shown : ∀ X Y, Shown canvas fb ox oy rc X Y →
    c.bits (fb.index X Y) = canvas.srcBase (canvas.index (X - ox) (Y - oy))
  kept : ∀ k, (∀ X Y, Shown canvas fb ox oy rc X Y → k ≠ fb.index X Y) → c.bits k = bits k
  dirty : ∀ d, c.dirty = some d → ∀ X Y, d.Has X Y ↔ Shown canvas fb ox oy rc X Y
  reported : c.dirty.isSome = true ↔ ∃ X Y, Shown canvas fb ox oy rc X Y

/-! ### Rows of a memory -/

/-- **A place in a row**: rows have no places in common. -/
theorem index_iff (row Y : ℤ) {W X a b : ℤ} (hX : 0 ≤ X) (hXW : X < W) (ha : 0 ≤ a) (hb : b ≤ W) :
    (row * W + a ≤ Y * W + X ∧ Y * W + X < row * W + b) ↔ Y = row ∧ a ≤ X ∧ X < b := by
  constructor
  · rintro ⟨hle, hlt⟩
    have hW : 0 < W := by omega
    have hY : Y = row := by
      rcases lt_trichotomy Y row with h | h | h
      · have := mul_le_mul_of_nonneg_right (show Y + 1 ≤ row by omega) hW.le
        rw [add_mul, one_mul] at this
        omega
      · exact h
      · have := mul_le_mul_of_nonneg_right (show row + 1 ≤ Y by omega) hW.le
        rw [add_mul, one_mul] at this
        omega
    subst hY
    omega
  · rintro ⟨rfl, hle, hlt⟩
    omega

section Rows

variable {canvas : Canvas} {fb : Framebuffer} {rcSrc rcFb : RECT}

/-- **What the rows leave in a pixel** of the framebuffer. -/
theorem copyRows_get (bits : ℤ → UInt32) (hleft : 0 ≤ rcFb.left) (hright : rcFb.right ≤ fb.width)
    {X Y : ℤ} (hX : 0 ≤ X) (hXW : X < fb.width) (n : ℕ) :
    copyRows canvas fb rcSrc rcFb bits n (fb.index X Y) =
      if rcFb.top ≤ Y ∧ Y < rcFb.top + n ∧ rcFb.left ≤ X ∧ X < rcFb.right then
        canvas.srcBase (canvas.index (rcSrc.left + (X - rcFb.left)) (rcSrc.top + (Y - rcFb.top)))
      else bits (fb.index X Y) := by
  induction n with
  | zero => rw [if_neg (by omega)]; rfl
  | succ n ih =>
    have hrow := index_iff (rcFb.top + n) Y hX hXW hleft hright
    rw [copyRows, memcpy, ih]
    have hend : fbRow fb rcFb n + (rcFb.right - rcFb.left) =
        (rcFb.top + n) * fb.width + rcFb.right := by
      unfold fbRow
      omega
    rw [hend]
    unfold fbRow Framebuffer.index
    push_cast
    by_cases hY : Y = rcFb.top + n ∧ rcFb.left ≤ X ∧ X < rcFb.right
    · rw [if_pos (hrow.2 hY), if_pos (by omega)]
      obtain ⟨rfl, -, -⟩ := hY
      congr 1
      unfold srcRow Canvas.index
      have hn : rcFb.top + (n : ℤ) - rcFb.top = n := by omega
      rw [hn]
      omega
    · rw [if_neg fun h => hY (hrow.1 h)]
      by_cases hin : rcFb.top ≤ Y ∧ Y < rcFb.top + n ∧ rcFb.left ≤ X ∧ X < rcFb.right
      · rw [if_pos hin, if_pos (by omega)]
      · rw [if_neg hin, if_neg (by omega)]

theorem copyRows_of_not (bits : ℤ → UInt32) {k : ℤ} {n : ℕ}
    (h : ∀ y < n, ¬(fbRow fb rcFb y ≤ k ∧ k < fbRow fb rcFb y + (rcFb.right - rcFb.left))) :
    copyRows canvas fb rcSrc rcFb bits n k = bits k := by
  induction n with
  | zero => rfl
  | succ n ih =>
    rw [copyRows, memcpy, if_neg (h n (Nat.lt_succ_self n))]
    exact ih fun y hy => h y (Nat.lt_succ_of_lt hy)

end Rows

/-! ### Every call is faithful -/

/-- The clippings keep the two rectangles in step, and what is left of them is what is shown. -/
theorem clip_shown {canvas : Canvas} {fb : Framebuffer} {ox oy : ℤ} {rc : RECT} (X Y : ℤ) :
    (clipScreen fb (toScreen ox oy (clipCanvas canvas rc))).Has X Y ↔
      Shown canvas fb ox oy rc X Y := by
  unfold RECT.Has Shown Framebuffer.Has RECT.Has Canvas.Has clipScreen toScreen clipCanvas
  dsimp only
  split_ifs <;> omega

/-- Nothing is shown of a rectangle that is empty on the canvas. -/
theorem not_shown {canvas : Canvas} {fb : Framebuffer} {ox oy : ℤ} {rc : RECT}
    (hempty : (clipCanvas canvas rc).isEmpty ∨
      (clipScreen fb (toScreen ox oy (clipCanvas canvas rc))).isEmpty) (X Y : ℤ) :
    ¬Shown canvas fb ox oy rc X Y := by
  intro h
  have hhas := (clip_shown X Y).2 h
  rcases hempty with he | he
  · obtain ⟨-, hrc, hcanvas⟩ := h
    unfold RECT.Has at hrc
    unfold Canvas.Has at hcanvas
    unfold RECT.isEmpty clipCanvas at he
    dsimp only at he
    split_ifs at he <;> omega
  · unfold RECT.Has at hhas
    unfold RECT.isEmpty at he
    omega

/-- A call that does nothing is faithful when nothing is shown. -/
theorem Faithful.nothing {canvas : Canvas} {fb : Framebuffer} {ox oy : ℤ} {rc : RECT}
    {bits : ℤ → UInt32} (h : ∀ X Y, ¬Shown canvas fb ox oy rc X Y) :
    Faithful canvas fb ox oy rc bits (.nothing bits) where
  reads := fun _ hr => absurd hr List.not_mem_nil
  writes := fun _ hr => absurd hr List.not_mem_nil
  shown := fun X Y hs => absurd hs (h X Y)
  kept := fun _ _ => rfl
  dirty := fun _ hd => nomatch hd
  reported := by
    constructor
    · intro hd
      cases hd
    · rintro ⟨X, Y, hs⟩
      exact absurd hs (h X Y)

/-- **Every call of `commitCanvas` is faithful**, for every canvas, place and rectangle. -/
theorem commitCanvas_faithful (canvas : Canvas) (fb : Framebuffer) (ox oy : ℤ) (rc : RECT)
    (bits : ℤ → UInt32) :
    Faithful canvas fb ox oy rc bits (commitCanvas (some canvas) fb ox oy rc bits) := by
  unfold commitCanvas
  dsimp only
  split_ifs with hsrc hfb
  · exact .nothing (not_shown (.inl hsrc))
  · exact .nothing (not_shown (.inr hfb))
  set rcFb := clipScreen fb (toScreen ox oy (clipCanvas canvas rc)) with hrcFb
  set rcSrc := clipSource (clipCanvas canvas rc) (toScreen ox oy (clipCanvas canvas rc))
    with hrcSrc
  have hshown : ∀ X Y, rcFb.Has X Y ↔ Shown canvas fb ox oy rc X Y := clip_shown
  -- the first corners of the two rectangles belong together
  have hcorner : rcSrc.left = rcFb.left - ox ∧ rcSrc.top = rcFb.top - oy := by
    rw [hrcSrc, hrcFb]
    unfold clipSource clipScreen toScreen
    dsimp only
    split_ifs <;> omega
  have hne : rcFb.left < rcFb.right ∧ rcFb.top < rcFb.bottom := by
    unfold RECT.isEmpty at hfb
    omega
  have hfirst := (hshown rcFb.left rcFb.top).1 (by unfold RECT.Has; omega)
  have hlast := (hshown (rcFb.right - 1) (rcFb.bottom - 1)).1 (by unfold RECT.Has; omega)
  have hbounds : 0 ≤ rcFb.left ∧ rcFb.right ≤ fb.width := by
    obtain ⟨⟨h1, -⟩, -⟩ := hfirst
    obtain ⟨⟨-, h2, -⟩, -⟩ := hlast
    omega
  have hrows : ((rcFb.bottom - rcFb.top).toNat : ℤ) = rcFb.bottom - rcFb.top := by omega
  refine ⟨?_, ?_, ?_, ?_, ?_, ?_⟩
  · intro run hr k hk hk'
    obtain ⟨y, hy, rfl⟩ := List.mem_map.1 hr
    have hy' := List.mem_range.1 hy
    dsimp only at hk hk'
    unfold srcRow at hk hk'
    refine ⟨k - (rcSrc.top + y) * canvas.stride, rcSrc.top + y, ?_, ?_⟩
    · have hs := (hshown (k - (rcSrc.top + y) * canvas.stride + ox) (rcFb.top + y)).1
        (by unfold RECT.Has; omega)
      have hc := hs.2.2
      unfold Canvas.Has at hc ⊢
      omega
    · unfold Canvas.index
      omega
  · intro run hr k hk hk'
    obtain ⟨y, hy, rfl⟩ := List.mem_map.1 hr
    have hy' := List.mem_range.1 hy
    dsimp only at hk hk'
    unfold fbRow at hk hk'
    refine ⟨k - (rcFb.top + y) * fb.width, rcFb.top + y, ?_, ?_⟩
    · exact ((hshown _ _).1 (by unfold RECT.Has; omega)).1
    · unfold Framebuffer.index
      omega
  · intro X Y hs
    have hhas := (hshown X Y).2 hs
    have hfbXY := hs.1
    unfold RECT.Has at hhas
    unfold Framebuffer.Has at hfbXY
    dsimp only
    rw [copyRows_get bits hbounds.1 hbounds.2 hfbXY.1 hfbXY.2.1, if_pos (by omega)]
    congr 2 <;> omega
  · intro k hk
    refine copyRows_of_not bits fun y hy hrow => ?_
    unfold fbRow at hrow
    refine hk (k - (rcFb.top + y) * fb.width) (rcFb.top + y)
      ((hshown _ _).1 (by unfold RECT.Has; omega)) ?_
    unfold Framebuffer.index
    omega
  · intro d hd X Y
    cases hd
    exact hshown X Y
  · exact ⟨fun _ => ⟨_, _, hfirst⟩, fun _ => rfl⟩

/-- An image of three pixels by two in rows of four; each pixel is its own place. -/
def sampleCanvas : Canvas where
  sw := 3
  sh := 2
  stride := 4
  srcBase k := UInt32.ofNat k.toNat
  sw_le_stride := by decide

/-- The window is over the lower left corner of the screen, which shows two of its pixels. -/
theorem commitCanvas_corner : ∃ c,
    c = commitCanvas (some sampleCanvas) ⟨4, 4⟩ (-1) 3 ⟨-5, 0, 9, 9⟩ (fun _ => 7) ∧
      c.dirty = some ⟨0, 3, 2, 4⟩ ∧ c.bits 12 = 1 ∧ c.bits 13 = 2 := by
  have hfaithful := commitCanvas_faithful sampleCanvas ⟨4, 4⟩ (-1) 3 ⟨-5, 0, 9, 9⟩ fun _ => 7
  refine ⟨_, rfl, rfl, hfaithful.shown 0 3 ?_, hfaithful.shown 1 3 ?_⟩ <;>
    · unfold Shown Framebuffer.Has RECT.Has Canvas.Has
      decide

end Blit

end Swinx
