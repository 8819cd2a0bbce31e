import Mathlib
import Swinx.Data.Chain
import Swinx.LTS.Basic

/-!
# Coordinates of windows

`ClientToScreen`, `ScreenToClient` and `GetWindowRect` walk up from a window to its parent, up to a
window that is no child.  The first two add the edge of every window that has a border on their way,
the third one, and `MapWindowPoints` with it, does not.  `SetParent` takes any window for a parent.

A walk has a bound here and has no result if it does not end within it.  Coordinates are of type
`int`, and sums wrap around.  A window of another process has the size that the server tells.

* `mappings_iff` — the mappings agree in all states that calls of `SetParent` lead to if and only if
  no window has a border and no child is given a parent that is below it.
* `mappings_differ` — they do not in general.
-/

namespace Swinx

namespace Coords

abbrev HWND := ℕ

structure POINT where
  x : Int32
  y : Int32
  deriving DecidableEq

structure RECT where
  left : Int32
  top : Int32
  right : Int32
  bottom : Int32
  deriving DecidableEq

/-- What `_Window` says about where a window is. -/
structure Window where
  /-- `dwStyle & WS_CHILD` -/
  child : Bool
  /-- `dwStyle & WS_BORDER` -/
  border : Bool
  rc : RECT
  parent : Option HWND
  deriving DecidableEq

structure Desktop where
  /-- `WndMgr::fromHwnd` -/
  window : HWND → Option Window
  /-- The size of a window of another process. -/
  geometry : HWND → Option (Int32 × Int32)

/-- `GetSystemMetrics` of `SM_CXEDGE` -/
def cxEdge : Int32 := 1

/-- `GetSystemMetrics` of `SM_CYEDGE` -/
def cyEdge : Int32 := 1

/-- `ppt->x += dx` and `ppt->y += dy` -/
def POINT.offset (pt : POINT) (dx dy : Int32) : POINT := ⟨pt.x + dx, pt.y + dy⟩

/-- `OffsetRect` -/
def RECT.offset (rc : RECT) (dx dy : Int32) : RECT :=
  ⟨rc.left + dx, rc.top + dy, rc.right + dx, rc.bottom + dy⟩

namespace Desktop

variable (d : Desktop)

/-- The loop of `ClientToScreen` -/
def clientToScreenLoop : ℕ → Option HWND → POINT → Option POINT
  | 0, _, _ => none
  | _ + 1, none, pt => some pt
  | n + 1, some hParent, pt =>
    match d.window hParent with
    | none => some pt
    | some wndObj =>
      let pt := pt.offset wndObj.rc.left wndObj.rc.top
      let pt := if wndObj.border then pt.offset cxEdge cyEdge else pt
      if wndObj.child then clientToScreenLoop n wndObj.parent pt else some pt

/-- `ClientToScreen`: what it returns, and the point. -/
def clientToScreen (n : ℕ) (hWnd : HWND) (pt : POINT) : Option (Bool × POINT) :=
  match d.window hWnd with
  | none => some (false, pt)
  | some wndObj =>
    let pt := pt.offset wndObj.rc.left wndObj.rc.top
    let pt := if wndObj.border then pt.offset cxEdge cyEdge else pt
    if wndObj.child then (d.clientToScreenLoop n wndObj.parent pt).map (true, ·)
    else some (true, pt)

/-- The loop of `ScreenToClient` -/
def screenToClientLoop : ℕ → Option HWND → POINT → Option POINT
  | 0, _, _ => none
  | _ + 1, none, pt => some pt
  | n + 1, some hParent, pt =>
    match d.window hParent with
    | none => some pt
    | some wndObj =>
      let pt := pt.offset (-wndObj.rc.left) (-wndObj.rc.top)
      let pt := if wndObj.border then pt.offset (-cxEdge) (-cyEdge) else pt
      if wndObj.child then screenToClientLoop n wndObj.parent pt else some pt

/-- `ScreenToClient` -/
def screenToClient (n : ℕ) (hWnd : HWND) (pt : POINT) : Option (Bool × POINT) :=
  match d.window hWnd with
  | none => some (false, pt)
  | some wndObj =>
    let pt := pt.offset (-wndObj.rc.left) (-wndObj.rc.top)
    let pt := if wndObj.border then pt.offset (-cxEdge) (-cyEdge) else pt
    if wndObj.child then (d.screenToClientLoop n wndObj.parent pt).map (true, ·)
    else some (true, pt)

/-- `_GetWndRect` -/
def getWndRect (hWnd : HWND) : Option RECT :=
  match d.window hWnd with
  | some wndObj => some wndObj.rc
  | none => (d.geometry hWnd).map fun size => ⟨0, 0, size.1, size.2⟩

/-- `GetWindowLong` of `GWL_STYLE`, and `WS_CHILD` in it -/
def isChild (hWnd : HWND) : Bool := (d.window hWnd).any Window.child

/-- `GetParent` -/
def getParent (hWnd : HWND) : Option HWND := (d.window hWnd).bind Window.parent

/-- The loop of `GetWindowRect` -/
def windowRectLoop : ℕ → HWND → RECT → Option RECT
  | 0, _, _ => none
  | n + 1, hWnd, rc =>
    if d.isChild hWnd then
      match d.getParent hWnd with
      | none => some rc
      | some hWnd =>
        match d.getWndRect hWnd with
        | none => some rc
        | some rcParent => windowRectLoop n hWnd (rc.offset rcParent.left rcParent.top)
    else some rc

/-- `GetWindowRect`; no rectangle is `FALSE`. -/
def getWindowRect (n : ℕ) (hWnd : HWND) : Option (Option RECT) :=
  match d.getWndRect hWnd with
  | none => some none
  | some rc => (d.windowRectLoop n hWnd rc).map some

/-- The rectangle that `MapWindowPoints` starts with. -/
def mapRect (n : ℕ) : Option HWND → Option (Option RECT)
  | none => some (some ⟨0, 0, 0, 0⟩)
  | some hWnd => d.getWindowRect n hWnd

/-- `MAKELONG` -/
def makelong (low high : Int32) : UInt32 :=
  (low.toUInt32 &&& (0xFFFF : UInt32)) ||| ((high.toUInt32 &&& (0xFFFF : UInt32)) <<< (16 : UInt32))

/-- `MapWindowPoints` -/
def mapWindowPoints (n : ℕ) (hWndFrom hWndTo : Option HWND) (lpPoint : List POINT) :
    Option (UInt32 × List POINT) :=
  if hWndFrom = hWndTo then some (0, lpPoint)
  else do
    match ← d.mapRect n hWndFrom with
    | none => some (0, lpPoint)
    | some rcFrom =>
      match ← d.mapRect n hWndTo with
      | none => some (0, lpPoint)
      | some rcTo =>
        let xDiff := rcTo.left - rcFrom.left
        let yDiff := rcTo.top - rcFrom.top
        some (makelong (-xDiff) (-yDiff), lpPoint.map fun pt => pt.offset (-xDiff) (-yDiff))

/-- `SetParent` -/
def setParent (hWnd : HWND) (hParent : Option HWND) : Desktop :=
  match d.window hWnd with
  | none => d
  | some wndObj =>
    { d with window := Function.update d.window hWnd (some { wndObj with parent := hParent }) }

end Desktop

/-- Calls of `SetParent` -/
def lts : LTS Desktop (HWND × Option HWND) where
  next d call := some (d.setParent call.1 call.2)

/-- A call returns, however long it takes. -/
def Returns {α : Type*} (f : ℕ → Option α) (a : α) : Prop := ∃ n, f n = some a

namespace Desktop

variable (d : Desktop)

/-- `ClientToScreen`, where the null window has the coordinates of the screen. -/
def toScreen (n : ℕ) (pt : POINT) : Option HWND → Option (Bool × POINT)
  | none => some (true, pt)
  | some hWnd => d.clientToScreen n hWnd pt

/-- `ScreenToClient`, where the null window has the coordinates of the screen. -/
def fromScreen (n : ℕ) (pt : POINT) : Option HWND → Option (Bool × POINT)
  | none => some (true, pt)
  | some hWnd => d.screenToClient n hWnd pt

/-- A window, or the null window. -/
def Has (hWnd? : Option HWND) : Prop := ∀ hWnd ∈ hWnd?, (d.window hWnd).isSome

/-- **The mappings agree with one another**, and all of them return. -/
structure Agree : Prop where
  toScreen_fromScreen : ∀ a p, d.Has (some a) → ∃ q, Returns (d.clientToScreen · a p) (true, q) ∧
    Returns (d.screenToClient · a q) (true, p)
  fromScreen_toScreen : ∀ a q, d.Has (some a) → ∃ p, Returns (d.screenToClient · a q) (true, p) ∧
    Returns (d.clientToScreen · a p) (true, q)
  map : ∀ a b lpPoint, d.Has a → d.Has b → ∃ ret lpPoint',
    Returns (d.mapWindowPoints · a b lpPoint) (ret, lpPoint') ∧
    List.Forall₂ (fun p r => ∃ q, Returns (d.toScreen · p a) (true, q) ∧
      Returns (d.fromScreen · q b) (true, r)) lpPoint lpPoint'
  corner : ∀ c p wndObj, d.window c = some wndObj → wndObj.child → wndObj.parent = some p →
    d.Has (some p) → ∃ rc, Returns (d.getWindowRect · c) (some rc) ∧
      Returns (d.clientToScreen · p ⟨wndObj.rc.left, wndObj.rc.top⟩) (true, ⟨rc.left, rc.top⟩)

/-- The parent of a child. -/
def above (hWnd : HWND) : Option HWND :=
  (d.window hWnd).bind fun wndObj => if wndObj.child then wndObj.parent else none

/-- The window tree is acyclic. -/
def Acyclic : Prop := WellFounded (Chain.Above d.above)

/-- No window has a border. -/
def Borderless : Prop := ∀ hWnd wndObj, d.window hWnd = some wndObj → wndObj.border = false

end Desktop

/-- The new parent of a child is not the child itself and not below it. -/
def Orderly (d : Desktop) (call : HWND × Option HWND) : Prop :=
  d.isChild call.1 → ∀ p ∈ call.2, ¬ Chain.On d.above p call.1

/-! ### Points -/

@[ext]
theorem POINT.ext {p q : POINT} (hx : p.x = q.x) (hy : p.y = q.y) : p = q := by
  cases p
  cases q
  exact congrArg₂ POINT.mk hx hy

theorem POINT.offset_zero (p : POINT) : p.offset 0 0 = p := by
  ext <;> simp [offset]

theorem POINT.offset_offset (p : POINT) (a b a' b' : Int32) :
    (p.offset a b).offset a' b' = p.offset (a + a') (b + b') := by
  ext <;> simp only [offset] <;> grind

theorem RECT.offset_zero (rc : RECT) : rc.offset 0 0 = rc := by
  cases rc
  simp [offset]

theorem RECT.offset_offset (rc : RECT) (a b a' b' : Int32) :
    (rc.offset a b).offset a' b' = rc.offset (a + a') (b + b') := by
  simp only [offset, RECT.mk.injEq]
  grind

/-! ### Walks -/

namespace Desktop

variable {d : Desktop}

/-- The edge of a window. -/
def edge (wndObj : Window) : Int32 := if wndObj.border then 1 else 0

/-- The sum of what the windows of a chain add. -/
def total (d : Desktop) (f : Window → Int32) : List HWND → Int32
  | [] => 0
  | h :: hs => (d.window h).elim 0 f + d.total f hs

/-- Where the first window of a chain is on the screen, without edges. -/
def left (d : Desktop) (hs : List HWND) : Int32 := d.total (fun wndObj => wndObj.rc.left) hs

def top (d : Desktop) (hs : List HWND) : Int32 := d.total (fun wndObj => wndObj.rc.top) hs

/-- The edges of the windows of a chain. -/
def edges (d : Desktop) (hs : List HWND) : Int32 := d.total edge hs

/-- The windows from a parent up. -/
def Ends (d : Desktop) (p : Option HWND) (hs : List HWND) : Prop :=
  Returns (Chain.chain d.above · p) hs

theorem Ends.unique {p : Option HWND} {hs hs' : List HWND} (h : d.Ends p hs) (h' : d.Ends p hs') :
    hs = hs' := by
  obtain ⟨n, hn⟩ := h
  obtain ⟨m, hm⟩ := h'
  exact Option.some.inj ((Chain.chain_mono hn (le_max_left n m)).symm.trans
    (Chain.chain_mono hm (le_max_right n m)))

theorem ends_none : d.Ends none [] := ⟨1, rfl⟩

theorem ends_some {h : HWND} {hs : List HWND} :
    d.Ends (some h) hs ↔ ∃ hs', d.Ends (d.above h) hs' ∧ hs = h :: hs' := by
  constructor
  · rintro ⟨n, hn⟩
    cases n with
    | zero => exact absurd hn (by simp [Chain.chain])
    | succ n =>
      obtain ⟨hs', hhs', rfl⟩ := Option.map_eq_some_iff.1 hn
      exact ⟨hs', ⟨n, hhs'⟩, rfl⟩
  · rintro ⟨hs', ⟨n, hn⟩, rfl⟩
    exact ⟨n + 1, Option.map_eq_some_iff.2 ⟨hs', hn, rfl⟩⟩

theorem ends_of_above {h : HWND} (habove : d.above h = none) : d.Ends (some h) [h] :=
  ends_some.2 ⟨[], habove ▸ ends_none, rfl⟩

theorem exists_ends (hd : d.Acyclic) (h : HWND) : ∃ hs, d.Ends (some h) hs := by
  obtain ⟨n, hs, hn⟩ := Chain.exists_chain_of_acc (hd.apply h)
  exact ⟨h :: hs, n, hn⟩

theorem acc_of_ends {h : HWND} {hs : List HWND} (hends : d.Ends (some h) hs) :
    Acc (Chain.Above d.above) h := by
  obtain ⟨n, hn⟩ := hends
  exact Chain.acc_of_chain hn

theorem above_of_child {h : HWND} {wndObj : Window} (hwnd : d.window h = some wndObj)
    (hchild : wndObj.child = true) : d.above h = wndObj.parent := by
  simp [above, hwnd, hchild]

theorem above_of_not_child {h : HWND} {wndObj : Window} (hwnd : d.window h = some wndObj)
    (hchild : wndObj.child = false) : d.above h = none := by
  simp [above, hwnd, hchild]

theorem above_of_none {h : HWND} (hwnd : d.window h = none) : d.above h = none := by
  simp [above, hwnd]

theorem total_cons_some {f : Window → Int32} {h : HWND} {hs : List HWND} {wndObj : Window}
    (hwnd : d.window h = some wndObj) : d.total f (h :: hs) = f wndObj + d.total f hs := by
  simp only [total, hwnd, Option.elim]

theorem total_cons_none {f : Window → Int32} {h : HWND} {hs : List HWND}
    (hwnd : d.window h = none) : d.total f (h :: hs) = d.total f hs := by
  simp only [total, hwnd, Option.elim, Int32.zero_add]

theorem client_offset (wndObj : Window) (pt : POINT) (a b : Int32) :
    (if wndObj.border then (pt.offset a b).offset cxEdge cyEdge else pt.offset a b) =
      pt.offset (a + edge wndObj) (b + edge wndObj) := by
  unfold edge
  cases wndObj.border
  · simp
  · exact pt.offset_offset a b 1 1

theorem screen_offset (wndObj : Window) (pt : POINT) (a b : Int32) :
    (if wndObj.border then (pt.offset a b).offset (-cxEdge) (-cyEdge) else pt.offset a b) =
      pt.offset (a - edge wndObj) (b - edge wndObj) := by
  unfold edge
  cases wndObj.border
  · simp
  · rw [if_pos rfl, POINT.offset_offset, if_pos rfl, Int32.sub_eq_add_neg, Int32.sub_eq_add_neg]
    rfl

/-! ### The walks of the calls -/

/-- A walk that changes a value at every window. -/
def walk {α : Type*} (d : Desktop) (f : Window → α → α) : ℕ → Option HWND → α → Option α
  | 0, _, _ => none
  | _ + 1, none, a => some a
  | n + 1, some h, a =>
    match d.window h with
    | none => some a
    | some wndObj =>
      if wndObj.child then d.walk f n wndObj.parent (f wndObj a) else some (f wndObj a)

/-- What a walk makes of a value. -/
def along {α : Type*} (d : Desktop) (f : Window → α → α) (hs : List HWND) (a : α) : α :=
  hs.foldl (fun a h => (d.window h).elim a (f · a)) a

section Walk

variable {α : Type*} {f : Window → α → α} {p : Option HWND} {a b : α}

theorem along_cons_none {h : HWND} {hs : List HWND} (hwnd : d.window h = none) :
    d.along f (h :: hs) a = d.along f hs a := by
  simp only [along, List.foldl_cons, hwnd, Option.elim]

theorem along_cons_some {h : HWND} {hs : List HWND} {wndObj : Window}
    (hwnd : d.window h = some wndObj) :
    d.along f (h :: hs) a = d.along f hs (f wndObj a) := by
  simp only [along, List.foldl_cons, hwnd, Option.elim]

theorem ends_of_walk {n : ℕ} (hn : d.walk f n p a = some b) :
    ∃ hs, d.Ends p hs ∧ b = d.along f hs a := by
  induction n generalizing p a with
  | zero => exact absurd hn (by simp [walk])
  | succ n ih =>
    cases p with
    | none => exact ⟨[], ends_none, (Option.some.inj hn).symm⟩
    | some h =>
      cases hwnd : d.window h with
      | none =>
        refine ⟨[h], ends_of_above (above_of_none hwnd), ?_⟩
        simp only [walk, hwnd, Option.some.injEq] at hn
        rw [along_cons_none hwnd, ← hn]
        rfl
      | some wndObj =>
        simp only [walk, hwnd] at hn
        cases hchild : wndObj.child with
        | false =>
          refine ⟨[h], ends_of_above (above_of_not_child hwnd hchild), ?_⟩
          rw [if_neg (by simp [hchild]), Option.some.injEq] at hn
          rw [along_cons_some hwnd, ← hn]
          rfl
        | true =>
          rw [if_pos hchild] at hn
          obtain ⟨hs, hends, rfl⟩ := ih hn
          exact ⟨h :: hs, ends_some.2 ⟨hs, above_of_child hwnd hchild ▸ hends, rfl⟩,
            (along_cons_some hwnd).symm⟩

theorem walk_of_chain {n : ℕ} {hs : List HWND} (hn : Chain.chain d.above n p = some hs) :
    d.walk f n p a = some (d.along f hs a) := by
  induction n generalizing p a hs with
  | zero => exact absurd hn (by simp [Chain.chain])
  | succ n ih =>
    cases p with
    | none =>
      obtain rfl := Option.some.inj hn
      rfl
    | some h =>
      obtain ⟨hs', hn', rfl⟩ := Option.map_eq_some_iff.1 hn
      -- a walk of no steps gives nothing, so what it leaves is all that is left
      have hlast : d.above h = none → hs' = [] := by
        intro habove
        exact Ends.unique ⟨n, habove ▸ hn'⟩ ends_none
      cases hwnd : d.window h with
      | none =>
        rw [hlast (above_of_none hwnd), along_cons_none hwnd]
        simp only [walk, hwnd]
        rfl
      | some wndObj =>
        rw [along_cons_some hwnd]
        simp only [walk, hwnd]
        cases hchild : wndObj.child with
        | false =>
          rw [hlast (above_of_not_child hwnd hchild), if_neg Bool.false_ne_true]
          rfl
        | true =>
          rw [above_of_child hwnd hchild] at hn'
          rw [if_pos rfl, ih hn']

end Walk

theorem clientToScreenLoop_eq (n : ℕ) (p : Option HWND) (pt : POINT) :
    d.clientToScreenLoop n p pt = d.walk (fun wndObj pt =>
      pt.offset (wndObj.rc.left + edge wndObj) (wndObj.rc.top + edge wndObj)) n p pt := by
  induction n generalizing p pt with
  | zero => rfl
  | succ n ih =>
    cases p with
    | none => rfl
    | some h => simp only [clientToScreenLoop, walk, client_offset, ih]

theorem screenToClientLoop_eq (n : ℕ) (p : Option HWND) (pt : POINT) :
    d.screenToClientLoop n p pt = d.walk (fun wndObj pt =>
      pt.offset (-wndObj.rc.left - edge wndObj) (-wndObj.rc.top - edge wndObj)) n p pt := by
  induction n generalizing p pt with
  | zero => rfl
  | succ n ih =>
    cases p with
    | none => rfl
    | some h => simp only [screenToClientLoop, walk, screen_offset, ih]

theorem along_offset (f g : Window → Int32) (hs : List HWND) (pt : POINT) :
    d.along (fun wndObj pt => pt.offset (f wndObj) (g wndObj)) hs pt =
      pt.offset (d.total f hs) (d.total g hs) := by
  induction hs generalizing pt with
  | nil => exact pt.offset_zero.symm
  | cons h hs ih =>
    cases hwnd : d.window h with
    | none => rw [along_cons_none hwnd, total_cons_none hwnd, total_cons_none hwnd, ih]
    | some wndObj =>
      rw [along_cons_some hwnd, total_cons_some hwnd, total_cons_some hwnd, ih,
        POINT.offset_offset]

theorem along_offset_rect (f g : Window → Int32) (hs : List HWND) (rc : RECT) :
    d.along (fun wndObj rc => rc.offset (f wndObj) (g wndObj)) hs rc =
      rc.offset (d.total f hs) (d.total g hs) := by
  induction hs generalizing rc with
  | nil => exact rc.offset_zero.symm
  | cons h hs ih =>
    cases hwnd : d.window h with
    | none => rw [along_cons_none hwnd, total_cons_none hwnd, total_cons_none hwnd, ih]
    | some wndObj =>
      rw [along_cons_some hwnd, total_cons_some hwnd, total_cons_some hwnd, ih,
        RECT.offset_offset]

theorem total_add (f g : Window → Int32) (hs : List HWND) :
    d.total (fun wndObj => f wndObj + g wndObj) hs = d.total f hs + d.total g hs := by
  induction hs with
  | nil => rfl
  | cons h hs ih =>
    cases hwnd : d.window h with
    | none => rw [total_cons_none hwnd, total_cons_none hwnd, total_cons_none hwnd, ih]
    | some wndObj =>
      rw [total_cons_some hwnd, total_cons_some hwnd, total_cons_some hwnd, ih]
      grind

theorem total_neg_sub (f g : Window → Int32) (hs : List HWND) :
    d.total (fun wndObj => -f wndObj - g wndObj) hs = -(d.total f hs + d.total g hs) := by
  induction hs with
  | nil => simp [total]
  | cons h hs ih =>
    cases hwnd : d.window h with
    | none => rw [total_cons_none hwnd, total_cons_none hwnd, total_cons_none hwnd, ih]
    | some wndObj =>
      rw [total_cons_some hwnd, total_cons_some hwnd, total_cons_some hwnd, ih]
      grind

theorem returns_first {α β : Type*} {f : Window → α → α} {a : α} {g : α → β} {r : β} {h : HWND}
    {wndObj : Window} (hwnd : d.window h = some wndObj) :
    Returns (fun n => if wndObj.child then (d.walk f n wndObj.parent (f wndObj a)).map g
      else some (g (f wndObj a))) r ↔
      ∃ hs, d.Ends (some h) hs ∧ r = g (d.along f hs a) := by
  constructor
  · rintro ⟨n, hn⟩
    beta_reduce at hn
    cases hchild : wndObj.child with
    | false =>
      rw [if_neg (by simp [hchild]), Option.some.injEq] at hn
      refine ⟨[h], ends_of_above (above_of_not_child hwnd hchild), ?_⟩
      rw [along_cons_some hwnd, ← hn]
      rfl
    | true =>
      rw [if_pos hchild] at hn
      obtain ⟨b, hb, rfl⟩ := Option.map_eq_some_iff.1 hn
      obtain ⟨hs, hends, rfl⟩ := ends_of_walk hb
      refine ⟨h :: hs, ends_some.2 ⟨hs, above_of_child hwnd hchild ▸ hends, rfl⟩, ?_⟩
      rw [along_cons_some hwnd]
  · rintro ⟨hs, hends, rfl⟩
    obtain ⟨hs, ⟨n, hn⟩, rfl⟩ := ends_some.1 hends
    rw [along_cons_some hwnd]
    refine ⟨n, ?_⟩
    cases hchild : wndObj.child with
    | false =>
      rw [above_of_not_child hwnd hchild] at hn
      rw [Ends.unique ⟨n, hn⟩ ends_none]
      rfl
    | true =>
      rw [above_of_child hwnd hchild] at hn
      exact congrArg (Option.map g) (walk_of_chain hn)

/-- **`ClientToScreen`** adds where the windows of the chain are, and their edges. -/
theorem returns_clientToScreen {h : HWND} (hh : d.Has (some h)) {pt : POINT} {r : Bool × POINT} :
    Returns (d.clientToScreen · h pt) r ↔ ∃ hs, d.Ends (some h) hs ∧
      r = (true, pt.offset (d.left hs + d.edges hs) (d.top hs + d.edges hs)) := by
  obtain ⟨wndObj, hwnd⟩ := Option.isSome_iff_exists.1 (hh h rfl)
  have hcall : (d.clientToScreen · h pt) = fun n => if wndObj.child then
      (d.walk (fun wndObj pt => pt.offset (wndObj.rc.left + edge wndObj)
        (wndObj.rc.top + edge wndObj)) n wndObj.parent
        (pt.offset (wndObj.rc.left + edge wndObj) (wndObj.rc.top + edge wndObj))).map (true, ·)
      else some (true, pt.offset (wndObj.rc.left + edge wndObj) (wndObj.rc.top + edge wndObj)) := by
    funext n
    simp only [clientToScreen, hwnd, client_offset, clientToScreenLoop_eq]
  rw [hcall, returns_first hwnd]
  simp only [along_offset, total_add]
  rfl

/-- **`ScreenToClient`** takes the same away. -/
theorem returns_screenToClient {h : HWND} (hh : d.Has (some h)) {pt : POINT} {r : Bool × POINT} :
    Returns (d.screenToClient · h pt) r ↔ ∃ hs, d.Ends (some h) hs ∧
      r = (true, pt.offset (-(d.left hs + d.edges hs)) (-(d.top hs + d.edges hs))) := by
  obtain ⟨wndObj, hwnd⟩ := Option.isSome_iff_exists.1 (hh h rfl)
  have hcall : (d.screenToClient · h pt) = fun n => if wndObj.child then
      (d.walk (fun wndObj pt => pt.offset (-wndObj.rc.left - edge wndObj)
        (-wndObj.rc.top - edge wndObj)) n wndObj.parent
        (pt.offset (-wndObj.rc.left - edge wndObj) (-wndObj.rc.top - edge wndObj))).map (true, ·)
      else some (true, pt.offset (-wndObj.rc.left - edge wndObj)
        (-wndObj.rc.top - edge wndObj)) := by
    funext n
    simp only [screenToClient, hwnd, screen_offset, screenToClientLoop_eq]
  rw [hcall, returns_first hwnd]
  simp only [along_offset, total_neg_sub]
  rfl

theorem isChild_eq_false {h : HWND} (hchild : d.isChild h = false) : d.above h = none := by
  cases hwnd : d.window h with
  | none => exact above_of_none hwnd
  | some wndObj =>
    rw [isChild, hwnd] at hchild
    exact above_of_not_child hwnd hchild

theorem above_of_isChild {h : HWND} (hchild : d.isChild h = true) : d.above h = d.getParent h := by
  cases hwnd : d.window h with
  | none => rw [isChild, hwnd] at hchild; exact absurd hchild (by simp)
  | some wndObj =>
    rw [isChild, hwnd] at hchild
    rw [above_of_child hwnd hchild, getParent, hwnd]
    rfl

theorem along_of_getWndRect {p : HWND} {rcParent rc : RECT} {hs : List HWND}
    (hrect : d.getWndRect p = some rcParent) :
    d.along (fun wndObj rc => rc.offset wndObj.rc.left wndObj.rc.top) (p :: hs) rc =
      d.along (fun wndObj rc => rc.offset wndObj.rc.left wndObj.rc.top) hs
        (rc.offset rcParent.left rcParent.top) := by
  cases hwnd : d.window p with
  | none =>
    simp only [getWndRect, hwnd, Option.map_eq_some_iff] at hrect
    obtain ⟨size, -, rfl⟩ := hrect
    rw [along_cons_none hwnd, RECT.offset_zero]
  | some wndObj =>
    simp only [getWndRect, hwnd, Option.some.injEq] at hrect
    rw [along_cons_some hwnd, hrect]

theorem getWndRect_eq_none {p : HWND} (hrect : d.getWndRect p = none) : d.window p = none := by
  cases hw : d.window p with
  | none => rfl
  | some wndObj => simp [getWndRect, hw] at hrect

theorem ends_of_windowRectLoop {n : ℕ} {h : HWND} {rc r : RECT}
    (hn : d.windowRectLoop n h rc = some r) : ∃ hs, d.Ends (d.above h) hs ∧
      r = d.along (fun wndObj rc => rc.offset wndObj.rc.left wndObj.rc.top) hs rc := by
  induction n generalizing h rc with
  | zero => exact absurd hn (by simp [windowRectLoop])
  | succ n ih =>
    cases hchild : d.isChild h with
    | false =>
      simp only [windowRectLoop, hchild, Bool.false_eq_true, if_false, Option.some.injEq] at hn
      exact ⟨[], isChild_eq_false hchild ▸ ends_none, hn.symm⟩
    | true =>
      simp only [windowRectLoop, hchild, if_true] at hn
      rw [above_of_isChild hchild]
      cases hparent : d.getParent h with
      | none =>
        simp only [hparent, Option.some.injEq] at hn
        exact ⟨[], ends_none, hn.symm⟩
      | some p =>
        simp only [hparent] at hn
        cases hrect : d.getWndRect p with
        | none =>
          simp only [hrect, Option.some.injEq] at hn
          have hwnd := getWndRect_eq_none hrect
          refine ⟨[p], ends_of_above (above_of_none hwnd), ?_⟩
          rw [along_cons_none hwnd, ← hn]
          rfl
        | some rcParent =>
          simp only [hrect] at hn
          obtain ⟨hs, hends, rfl⟩ := ih hn
          exact ⟨p :: hs, ends_some.2 ⟨hs, hends, rfl⟩, (along_of_getWndRect hrect).symm⟩

theorem windowRectLoop_of_chain {n : ℕ} {h : HWND} {rc : RECT} {hs : List HWND}
    (hn : Chain.chain d.above n (d.above h) = some hs) : d.windowRectLoop (n + 1) h rc =
      some (d.along (fun wndObj rc => rc.offset wndObj.rc.left wndObj.rc.top) hs rc) := by
  induction n generalizing h rc hs with
  | zero => exact absurd hn (by simp [Chain.chain])
  | succ n ih =>
    cases hchild : d.isChild h with
    | false =>
      rw [isChild_eq_false hchild] at hn
      rw [Ends.unique ⟨_, hn⟩ ends_none, windowRectLoop, hchild]
      rfl
    | true =>
      rw [above_of_isChild hchild] at hn
      rw [windowRectLoop, if_pos hchild]
      cases hparent : d.getParent h with
      | none =>
        rw [hparent] at hn
        rw [Ends.unique ⟨_, hn⟩ ends_none]
        rfl
      | some p =>
        rw [hparent] at hn
        obtain ⟨hs, hn', rfl⟩ := Option.map_eq_some_iff.1 hn
        cases hrect : d.getWndRect p with
        | none =>
          have hwnd := getWndRect_eq_none hrect
          rw [above_of_none hwnd] at hn'
          rw [Ends.unique ⟨_, hn'⟩ ends_none, along_cons_none hwnd]
          simp only [hrect]
          rfl
        | some rcParent =>
          simp only [hrect]
          exact (ih hn').trans (congrArg some (along_of_getWndRect hrect).symm)

/-- **`GetWindowRect`** adds no edges. -/
theorem ends_of_getWindowRect {n : ℕ} {h : HWND} {wndObj : Window}
    (hwnd : d.window h = some wndObj) {r : Option RECT} (hn : d.getWindowRect n h = some r) :
    ∃ hs, d.Ends (some h) hs ∧ ∃ rc, r = some rc ∧ rc.left = d.left hs ∧ rc.top = d.top hs := by
  have hrect : d.getWndRect h = some wndObj.rc := by
    rw [getWndRect, hwnd]
  simp only [getWindowRect, hrect] at hn
  obtain ⟨rc, hrc, rfl⟩ := Option.map_eq_some_iff.1 hn
  obtain ⟨hs, hends, rfl⟩ := ends_of_windowRectLoop hrc
  refine ⟨h :: hs, ends_some.2 ⟨hs, hends, rfl⟩, _, rfl, ?_, ?_⟩ <;> rw [along_offset_rect]
  · exact (total_cons_some (f := fun wndObj => wndObj.rc.left) hwnd).symm
  · exact (total_cons_some (f := fun wndObj => wndObj.rc.top) hwnd).symm

theorem getWindowRect_of_ends {h : HWND} {wndObj : Window} (hwnd : d.window h = some wndObj)
    {hs : List HWND} (hends : d.Ends (some h) hs) : ∃ rc, rc.left = d.left hs ∧
      rc.top = d.top hs ∧ ∃ n, ∀ m, n ≤ m → d.getWindowRect m h = some (some rc) := by
  have hrect : d.getWndRect h = some wndObj.rc := by
    rw [getWndRect, hwnd]
  obtain ⟨hs, ⟨n, hn⟩, rfl⟩ := ends_some.1 hends
  refine ⟨wndObj.rc.offset (d.left hs) (d.top hs), ?_, ?_, n + 1, fun m hle => ?_⟩
  · exact (total_cons_some (f := fun wndObj => wndObj.rc.left) hwnd).symm
  · exact (total_cons_some (f := fun wndObj => wndObj.rc.top) hwnd).symm
  · obtain ⟨m, rfl⟩ := Nat.exists_eq_succ_of_ne_zero (by omega : m ≠ 0)
    have hm := Chain.chain_mono hn (Nat.le_of_succ_le_succ hle)
    simp only [getWindowRect, hrect]
    rw [windowRectLoop_of_chain hm, along_offset_rect]
    rfl

/-! ### Windows without borders -/

theorem edges_of_borderless (hb : d.Borderless) (hs : List HWND) : d.edges hs = 0 := by
  induction hs with
  | nil => rfl
  | cons h hs ih =>
    unfold edges at ih ⊢
    cases hwnd : d.window h with
    | none => rw [total_cons_none hwnd, ih]
    | some wndObj =>
      rw [total_cons_some hwnd, ih, edge, hb h wndObj hwnd]
      rfl

/-- Where a window, or the screen, begins on the screen. -/
structure Begins (d : Desktop) (a : Option HWND) (x y : Int32) : Prop where
  toScreen : ∀ p, Returns (d.toScreen · p a) (true, p.offset x y)
  fromScreen : ∀ p, Returns (d.fromScreen · p a) (true, p.offset (-x) (-y))
  rect : ∃ rc, rc.left = x ∧ rc.top = y ∧ ∃ n, ∀ m, n ≤ m → d.mapRect m a = some (some rc)

theorem begins_of_ends {h : HWND} {hs : List HWND} (hh : d.Has (some h)) (hb : d.Borderless)
    (hends : d.Ends (some h) hs) : d.Begins (some h) (d.left hs) (d.top hs) := by
  have hedges := edges_of_borderless hb hs
  refine ⟨fun p => (returns_clientToScreen hh).2 ⟨hs, hends, ?_⟩,
    fun p => (returns_screenToClient hh).2 ⟨hs, hends, ?_⟩, ?_⟩
  · rw [hedges, Int32.add_zero, Int32.add_zero]
  · rw [hedges, Int32.add_zero, Int32.add_zero]
  · obtain ⟨wndObj, hwnd⟩ := Option.isSome_iff_exists.1 (hh h rfl)
    exact getWindowRect_of_ends hwnd hends

theorem exists_begins (hd : d.Acyclic) (hb : d.Borderless) {a : Option HWND} (ha : d.Has a) :
    ∃ x y, d.Begins a x y := by
  cases a with
  | none =>
    refine ⟨0, 0, fun p => ⟨0, ?_⟩, fun p => ⟨0, ?_⟩, ⟨0, 0, 0, 0⟩, rfl, rfl, 0, fun _ _ => rfl⟩
    · rw [POINT.offset_zero]
      rfl
    · rw [Int32.neg_zero, POINT.offset_zero]
      rfl
  | some h =>
    obtain ⟨hs, hends⟩ := exists_ends hd h
    exact ⟨_, _, begins_of_ends ha hb hends⟩

/-- **`MapWindowPoints`** between two windows, or a window and the screen. -/
theorem returns_mapWindowPoints {a b : Option HWND} {x y x' y' : Int32} (ha : d.Begins a x y)
    (hb : d.Begins b x' y') (hne : a ≠ b) (lpPoint : List POINT) : ∃ ret,
      Returns (d.mapWindowPoints · a b lpPoint)
        (ret, lpPoint.map fun p => p.offset (-(x' - x)) (-(y' - y))) := by
  obtain ⟨rc, rfl, rfl, n, hn⟩ := ha.rect
  obtain ⟨rc', rfl, rfl, n', hn'⟩ := hb.rect
  refine ⟨makelong (-(rc'.left - rc.left)) (-(rc'.top - rc.top)), max n n', ?_⟩
  simp only [mapWindowPoints, if_neg hne, hn _ (le_max_left n n'), hn' _ (le_max_right n n')]
  rfl

/-- **The mappings agree** in an acyclic tree of windows without borders. -/
theorem agree_of_borderless (hd : d.Acyclic) (hb : d.Borderless) : d.Agree := by
  refine ⟨fun a p ha => ?_, fun a q ha => ?_, fun a b lpPoint ha hb' => ?_,
    fun c p wndObj hwnd hchild hparent hp => ?_⟩
  · obtain ⟨x, y, h⟩ := exists_begins hd hb ha
    refine ⟨p.offset x y, h.toScreen p, ?_⟩
    have hback := h.fromScreen (p.offset x y)
    rwa [POINT.offset_offset, Int32.add_right_neg, Int32.add_right_neg, POINT.offset_zero] at hback
  · obtain ⟨x, y, h⟩ := exists_begins hd hb ha
    refine ⟨q.offset (-x) (-y), h.fromScreen q, ?_⟩
    have hback := h.toScreen (q.offset (-x) (-y))
    rwa [POINT.offset_offset, Int32.add_left_neg, Int32.add_left_neg, POINT.offset_zero] at hback
  · obtain ⟨x, y, h⟩ := exists_begins hd hb ha
    obtain ⟨x', y', h'⟩ := exists_begins hd hb hb'
    have hthere : ∀ p : POINT, ∃ q, Returns (d.toScreen · p a) (true, q) ∧
        Returns (d.fromScreen · q b) (true, p.offset (-(x' - x)) (-(y' - y))) := by
      intro p
      refine ⟨_, h.toScreen p, ?_⟩
      have hback := h'.fromScreen (p.offset x y)
      have hx : x + -x' = -(x' - x) := by grind
      have hy : y + -y' = -(y' - y) := by grind
      rwa [POINT.offset_offset, hx, hy] at hback
    by_cases hne : a = b
    · subst hne
      refine ⟨0, lpPoint, ⟨0, if_pos rfl⟩, List.forall₂_same.2 fun p _ => ?_⟩
      refine ⟨_, h.toScreen p, ?_⟩
      have hback := h.fromScreen (p.offset x y)
      rwa [POINT.offset_offset, Int32.add_right_neg, Int32.add_right_neg, POINT.offset_zero]
        at hback
    · obtain ⟨ret, hret⟩ := returns_mapWindowPoints h h' hne lpPoint
      refine ⟨ret, _, hret, ?_⟩
      rw [List.forall₂_map_right_iff]
      exact List.forall₂_same.2 fun p _ => hthere p
  · have habove : d.above c = some p := (above_of_child hwnd hchild).trans hparent
    obtain ⟨hs, hends⟩ := exists_ends hd p
    have hc : d.Ends (some c) (c :: hs) := ends_some.2 ⟨hs, habove ▸ hends, rfl⟩
    obtain ⟨rc, hleft, htop, n, hn⟩ := getWindowRect_of_ends hwnd hc
    refine ⟨rc, ⟨n, hn n le_rfl⟩, ?_⟩
    rw [hleft, htop, left, top, total_cons_some hwnd, total_cons_some hwnd]
    exact (begins_of_ends hp hb hends).toScreen ⟨wndObj.rc.left, wndObj.rc.top⟩

theorem Agree.acyclic (h : d.Agree) : d.Acyclic := by
  refine ⟨fun a => ?_⟩
  cases hwnd : d.window a with
  | none =>
    refine .intro a fun b hb => ?_
    rw [Chain.Above, above_of_none hwnd] at hb
    exact absurd hb (by simp)
  | some wndObj =>
    have ha : d.Has (some a) := by
      rintro _ ⟨⟩
      rw [hwnd]
      rfl
    obtain ⟨q, hq, -⟩ := h.toScreen_fromScreen a ⟨0, 0⟩ ha
    obtain ⟨hs, hends, -⟩ := (returns_clientToScreen ha).1 hq
    exact acc_of_ends hends

theorem Agree.edges_eq_zero (h : d.Agree) {a : HWND} (ha : d.Has (some a)) {hs : List HWND}
    (hends : d.Ends (some a) hs) : d.edges hs = 0 := by
  obtain ⟨wndObj, hwnd⟩ := Option.isSome_iff_exists.1 (ha a rfl)
  obtain ⟨ret, lpPoint', ⟨n, hn⟩, hall⟩ := h.map (some a) none [⟨0, 0⟩] ha
    fun _ hnone => absurd hnone (by simp)
  simp only [mapWindowPoints, if_neg (Option.some_ne_none a), mapRect, Option.bind_eq_bind] at hn
  obtain ⟨rc?, hrc, hn⟩ := Option.bind_eq_some_iff.1 hn
  obtain ⟨hs', hends', rc, rfl, hleft, -⟩ := ends_of_getWindowRect hwnd hrc
  obtain rfl := hends.unique hends'
  simp only [Option.bind_some, Option.some.injEq, Prod.mk.injEq] at hn
  obtain ⟨-, rfl⟩ := hn
  obtain ⟨⟨q, hq, m, hr⟩, -⟩ := List.forall₂_cons.1 hall
  obtain ⟨hs', hends', heq⟩ := (returns_clientToScreen ha).1 hq
  obtain rfl := hends.unique hends'
  simp only [fromScreen, Option.some.injEq, Prod.mk.injEq, true_and] at hr
  rw [hr, Prod.mk.injEq] at heq
  have hx := congrArg POINT.x heq.2
  simp only [POINT.offset, hleft] at hx
  grind

theorem Agree.borderless (h : d.Agree) : d.Borderless := by
  intro a wndObj hwnd
  have hhas : ∀ {b : HWND} {wndObj : Window}, d.window b = some wndObj → d.Has (some b) := by
    rintro b wndObj hb _ ⟨⟩
    rw [hb]
    rfl
  obtain ⟨hs, hends⟩ := exists_ends h.acyclic a
  have hedges := h.edges_eq_zero (hhas hwnd) hends
  obtain ⟨hs, hends', rfl⟩ := ends_some.1 hends
  -- the edges of the windows above are nothing, so the window's own edge is
  have habove : d.edges hs = 0 := by
    cases hab : d.above a with
    | none =>
      rw [hab] at hends'
      rw [Ends.unique hends' ends_none]
      rfl
    | some p =>
      rw [hab] at hends'
      cases hp : d.window p with
      | none =>
        rw [Ends.unique hends' (ends_of_above (above_of_none hp)), edges, total_cons_none hp]
        rfl
      | some wndObj' => exact h.edges_eq_zero (hhas hp) hends'
  rw [edges, total_cons_some hwnd] at hedges
  unfold edges at habove
  rw [habove, Int32.add_zero] at hedges
  unfold edge at hedges
  cases hborder : wndObj.border with
  | false => rfl
  | true =>
    rw [hborder] at hedges
    exact absurd hedges (by decide)

/-! ### New parents -/

theorem window_setParent_self {h : HWND} {wndObj : Window} (hwnd : d.window h = some wndObj)
    (p : Option HWND) : (d.setParent h p).window h = some { wndObj with parent := p } := by
  simp only [setParent, hwnd, Function.update_self]

theorem window_setParent_of_ne {a h : HWND} (hne : a ≠ h) (p : Option HWND) :
    (d.setParent h p).window a = d.window a := by
  unfold setParent
  cases d.window h with
  | none => rfl
  | some wndObj => exact Function.update_of_ne hne _ _

theorem setParent_of_none {h : HWND} (hwnd : d.window h = none) (p : Option HWND) :
    d.setParent h p = d := by
  simp only [setParent, hwnd]

theorem borderless_setParent (hb : d.Borderless) (h : HWND) (p : Option HWND) :
    (d.setParent h p).Borderless := by
  intro a wndObj' ha
  by_cases hne : a = h
  · subst hne
    cases hwnd : d.window a with
    | none =>
      rw [setParent_of_none hwnd] at ha
      exact hb a wndObj' ha
    | some wndObj =>
      rw [window_setParent_self hwnd, Option.some.injEq] at ha
      rw [← ha]
      exact hb a wndObj hwnd
  · rw [window_setParent_of_ne hne] at ha
    exact hb a wndObj' ha

theorem above_setParent_child {h : HWND} (hchild : d.isChild h = true) (p : Option HWND) :
    (d.setParent h p).above = Function.update d.above h p := by
  cases hwnd : d.window h with
  | none => rw [isChild, hwnd] at hchild; exact absurd hchild (by simp)
  | some wndObj =>
    rw [isChild, hwnd] at hchild
    funext a
    by_cases hne : a = h
    · subst hne
      rw [Function.update_self, above_of_child (window_setParent_self hwnd p) hchild]
    · rw [Function.update_of_ne hne, above, window_setParent_of_ne hne]
      rfl

theorem above_setParent_other {h : HWND} (hchild : d.isChild h = false) (p : Option HWND) :
    (d.setParent h p).above = d.above := by
  cases hwnd : d.window h with
  | none => rw [setParent_of_none hwnd]
  | some wndObj =>
    rw [isChild, hwnd] at hchild
    funext a
    by_cases hne : a = h
    · subst hne
      rw [above_of_not_child hwnd hchild,
        above_of_not_child (window_setParent_self hwnd p) hchild]
    · rw [above, window_setParent_of_ne hne]
      rfl

/-- **The tree stays acyclic** if and only if the call is orderly. -/
theorem acyclic_setParent_iff (hd : d.Acyclic) (call : HWND × Option HWND) :
    (d.setParent call.1 call.2).Acyclic ↔ Orderly d call := by
  unfold Acyclic Orderly
  cases hchild : d.isChild call.1 with
  | false =>
    rw [above_setParent_other hchild]
    exact iff_of_true hd fun h => absurd h Bool.false_ne_true
  | true =>
    rw [above_setParent_child hchild, Chain.wellFounded_update_iff hd]
    exact ⟨fun h _ => h, fun h => h rfl⟩

end Desktop

/-- **The mappings agree in every state of a run** of `SetParent` if and only if no window has a
border and no child gets a parent that is the child or below it. -/
theorem mappings_iff {d : Desktop} (hd : d.Acyclic) (calls : List (HWND × Option HWND)) :
    lts.AllStates Desktop.Agree d calls ↔ d.Borderless ∧ lts.AllSteps Orderly d calls := by
  have hruns : d.Borderless →
      (lts.AllStates Desktop.Agree d calls ↔ lts.AllSteps Orderly d calls) := by
    intro hb
    refine LTS.allStates_iff_allSteps (I := fun d => d.Acyclic ∧ d.Borderless)
      (fun d h => Desktop.agree_of_borderless h.1 h.2) ?_ ?_ ⟨hd, hb⟩
    · rintro d call _ ⟨hd, hb⟩ hcall ⟨⟩
      exact ⟨(Desktop.acyclic_setParent_iff hd call).2 hcall,
        Desktop.borderless_setParent hb _ _⟩
    · rintro d call _ ⟨hd, hb⟩ ⟨⟩ hagree
      exact (Desktop.acyclic_setParent_iff hd call).1 hagree.acyclic
  constructor
  · intro h
    have hb := h.head.borderless
    exact ⟨hb, (hruns hb).1 h⟩
  · rintro ⟨hb, h⟩
    exact (hruns hb).2 h

/-- A child in a child in a popup, without borders but for the popup. -/
def family (border : Bool) : Desktop where
  window h :=
    if h = 0 then some ⟨false, border, ⟨10, 10, 110, 110⟩, none⟩
    else if h = 1 then some ⟨true, false, ⟨5, 5, 55, 55⟩, some 0⟩
    else if h = 2 then some ⟨true, false, ⟨2, 2, 22, 22⟩, some 1⟩
    else none
  geometry _ := none

theorem acyclic_family (border : Bool) : (family border).Acyclic := by
  refine Subrelation.wf (r := fun p h => p < h) ?_ Nat.lt_wfRel.wf
  intro p h hp
  rcases h with _ | _ | _ | h
  · exact absurd hp (by simp [Chain.Above, Desktop.above, family])
  · obtain rfl : 0 = p := by simpa [Chain.Above, Desktop.above, family] using hp
    exact Nat.zero_lt_one
  · obtain rfl : 1 = p := by simpa [Chain.Above, Desktop.above, family] using hp
    exact Nat.one_lt_two
  · exact absurd hp (by simp [Chain.Above, Desktop.above, family])

/-- The inner child moves to the popup. -/
theorem mappings_moved : lts.AllStates Desktop.Agree (family false) [(2, some 0)] := by
  refine (mappings_iff (acyclic_family false) _).2 ⟨?_, fun d _ => ⟨fun _ p hp hon => ?_, trivial⟩⟩
  · intro h wndObj hwnd
    rcases h with _ | _ | _ | h
    · cases hwnd
      rfl
    · cases hwnd
      rfl
    · cases hwnd
      rfl
    · exact absurd hwnd (by simp [family])
  · obtain rfl : 0 = p := by simpa using hp
    rcases hon.cases_head with h | ⟨q, hq, -⟩
    · exact absurd h (by decide)
    · exact absurd hq (by simp [Desktop.above, family])

/-- **A border and a cycle.** The mappings of a child in a popup with a border differ by its edge,
and a child whose parent becomes the window in it makes the walk endless. -/
theorem mappings_differ : ¬ (family true).Agree ∧ (family true).Acyclic ∧
    (∃ n, (family true).mapWindowPoints n (some 1) none [⟨0, 0⟩] =
      some (0x000F000F, [⟨15, 15⟩])) ∧
    (∃ n, (family true).clientToScreen n 1 ⟨0, 0⟩ = some (true, ⟨16, 16⟩)) ∧
    ∀ n, ((family false).setParent 1 (some 2)).clientToScreen n 1 ⟨0, 0⟩ = none := by
  refine ⟨fun h => ?_, acyclic_family true, ⟨3, by decide⟩, ⟨3, by decide⟩, fun n => ?_⟩
  · exact absurd (h.borderless 0 _ rfl) (by decide)
  · by_contra hne
    obtain ⟨r, hr⟩ := Option.ne_none_iff_exists'.1 hne
    have hhas : ((family false).setParent 1 (some 2)).Has (some 1) := by
      rintro _ ⟨⟩
      rfl
    obtain ⟨hs, hends, -⟩ := (Desktop.returns_clientToScreen hhas).1 ⟨n, hr⟩
    have habove : ((family false).setParent 1 (some 2)).above 1 = some 2 := rfl
    have hback : ((family false).setParent 1 (some 2)).above 2 = some 1 := rfl
    exact Chain.not_acc_of_on habove (.single hback) (Desktop.acc_of_ends hends)

end Coords

end Swinx
