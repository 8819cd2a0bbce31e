import Swinx.LTS.Basic
import Swinx.Region.Moves
import Swinx.Window.Clip

/-!
# Keeping the clips of children

After a call that changes where a window is or what its client area is, the code computes again what
the window and its children are clipped to, and tells the platform if that is new.  It remembers
what it has told.

The platform may fail to do what it is told, and may have other windows in a window after every
call.  What the handlers of `WM_MOVE` and `WM_SIZE` do is a call of its own.

* `clips_current` — in a run of orderly calls, the clips are kept.
* `grandchild_shows` — a window shows outside of the client area of its grandparent.
-/

namespace Swinx

namespace Clip

open Function (update update_apply update_eq_self update_of_ne update_self)

open Region (RECT WINEREGION createRectRgn combineRgn intersectRegion RGN_AND Mem)

/-- What a window knows of its region. -/
structure ClipState where
  hAppRgn : Option WINEREGION
  bClipPushed : Bool
  rcClipPushed : RECT
  /-- The region that the platform was told last. -/
  shape : Option WINEREGION

structure State extends Desktop where
  clip : HWND → ClipState

/-- The region of a rectangle and that of the application. -/
def regions (hClip hAppRgn : WINEREGION) : Mem Bool :=
  update (fun _ => hClip) (.obj true) hAppRgn

/-- `CombineRgn(hClip, hClip, hAppRgn, RGN_AND)`; `none` is an overflow. -/
def combineAnd (hClip hAppRgn : WINEREGION) : Option WINEREGION :=
  match combineRgn some (regions hClip hAppRgn) false false true RGN_AND with
  | .ok r => some (r.1 (.obj false))
  | .error _ => none

/-- The region for a rectangle: `CreateRectRgnIndirect`, and `CombineRgn` if there is a region of
the application -/
def clipRgn (rcWant : RECT) (hAppRgn : Option WINEREGION) : Option WINEREGION :=
  let hClip := createRectRgn rcWant.left rcWant.top rcWant.right rcWant.bottom
  match hAppRgn with
  | none => some hClip
  | some rgn => combineAnd hClip rgn

/-- The platform is told a region, and does it or fails. -/
def State.push (s : State) (ok : HWND → Bool) (hWnd : HWND) (c : ClipState)
    (hRgn : Option WINEREGION) : State × Bool :=
  ({ s with clip := update s.clip hWnd (if ok hWnd then { c with shape := hRgn } else c) },
    ok hWnd)

/-- `SbRefreshWindowClip` -/
def refreshWindowClip (ok : HWND → Bool) (s : State) (hWnd : HWND) (bForce : Bool) :
    Option (State × Bool) :=
  match s.window hWnd with
  | none => some (s, false)
  | some wnd =>
    if wnd.bDestroyed then some (s, false)
    else
      match s.getWindowRect hWnd with
      | none => some (s, false)
      | some rcWnd =>
        let want := s.clipWant hWnd rcWnd
        let c := s.clip hWnd
        if needPushClipRgn want c.bClipPushed c.rcClipPushed bForce = false then some (s, true)
        else
          match want with
          | none => some (s.push ok hWnd { c with bClipPushed := false } c.hAppRgn)
          | some rcWant =>
            (clipRgn rcWant c.hAppRgn).map fun hClip =>
              s.push ok hWnd { c with bClipPushed := true, rcClipPushed := rcWant } (some hClip)

/-- `SbRefreshWindowClip` for one window after the other -/
def refreshList (ok : HWND → Bool) : State → List HWND → Option State
  | s, [] => some s
  | s, hWnd :: l => (refreshWindowClip ok s hWnd false).bind fun r => refreshList ok r.1 l

/-- `GetWindow(hWnd, GW_CHILD)` and its siblings -/
def State.children (s : State) (hWnd : HWND) : List HWND :=
  if (s.window hWnd).isSome then s.tree hWnd else []

/-- `SbRefreshChildClips` -/
def refreshChildClips (ok : HWND → Bool) (s : State) (hWnd : HWND) : Option State :=
  refreshList ok s (s.children hWnd)

/-- Both, as all calls do but one. -/
def refresh (ok : HWND → Bool) (s : State) (hWnd : HWND) : Option State :=
  (refreshWindowClip ok s hWnd false).bind fun r => refreshChildClips ok r.1 hWnd

/-- `GET_X_LPARAM` and `GET_Y_LPARAM` of what `MAKELPARAM` was given -/
def short (n : ℤ) : ℤ := Int.bmod n 65536

/-- `WM_MOVE` -/
def Window.move (wnd : Window) (x y : ℤ) : Window :=
  { wnd with rc := wnd.rc.offset (short x - wnd.rc.left) (short y - wnd.rc.top) }

/-- `WM_SIZE` -/
def Window.size (wnd : Window) (cx cy : ℤ) : Window :=
  if wnd.bmp ∧ (short cx ≠ wnd.rc.right - wnd.rc.left ∨ short cy ≠ wnd.rc.bottom - wnd.rc.top) then
    { wnd with rc :=
      ⟨wnd.rc.left, wnd.rc.top, wnd.rc.left + short cx, wnd.rc.top + short cy⟩ }
  else wnd

/-- The messages of `WM_WINDOWPOSCHANGED` -/
def Window.pos (wnd : Window) (noMove noSize : Bool) (x y cx cy : ℤ) : Window :=
  let wnd := if noMove then wnd else wnd.move x y
  if noSize then wnd else wnd.size cx cy

/-- `onStyleChange` -/
def Window.style (wnd : Window) (child border vscroll hscroll : Bool) : Window :=
  { wnd with
    child := child
    border := border
    vscroll := vscroll
    hscroll := hscroll
    sbVert := vscroll
    sbHorz := hscroll }

/-- `ShowScrollBar` -/
def Window.showBars (wnd : Window) (vert horz bShow : Bool) : Window :=
  { wnd with
    sbVert := if vert then bShow else wnd.sbVert
    sbHorz := if horz then bShow else wnd.sbHorz }

/-- `SetScrollInfo`, for a bar that is needed or not -/
def Window.needBar (wnd : Window) (vert bEnable : Bool) : Window :=
  if vert then { wnd with vscroll := bEnable, sbVert := bEnable }
  else { wnd with hscroll := bEnable, sbHorz := bEnable }

/-- Does the window have `WS_VSCROLL` or `WS_HSCROLL`? -/
def Window.hasBar (wnd : Window) (vert : Bool) : Bool := if vert then wnd.vscroll else wnd.hscroll

def State.setWindow (s : State) (hWnd : HWND) (f : Window → Window) : State :=
  { s with window := update s.window hWnd ((s.window hWnd).map f) }

/-- A window that has been made, of which nothing has been told. -/
def State.insert (s : State) (hWnd : HWND) (wnd : Window) (tree : HWND → List HWND) : State :=
  { s with
    handles := hWnd :: s.handles
    window := update s.window hWnd (some wnd)
    tree := tree
    clip := update s.clip hWnd ⟨none, false, rectEmpty, none⟩ }

/-- The calls; `tree` is what the platform has after it. -/
inductive Act
  /-- `WM_WINDOWPOSCHANGED` of `SetWindowPos` and `MoveWindow` -/
  | windowPosChanged (hWnd : HWND) (noMove noSize : Bool) (x y cx cy : ℤ)
  /-- `SetWindowLong` with `GWL_STYLE` -/
  | styleChange (hWnd : HWND) (child border vscroll hscroll : Bool)
  | showScrollBar (hWnd : HWND) (vert horz bShow : Bool)
  | setScrollInfo (hWnd : HWND) (vert bEnable : Bool)
  /-- `UM_SHOWWINDOW` -/
  | showWindow (hWnd : HWND)
  | setParent (hWnd : HWND) (hParent : Option HWND) (tree : HWND → List HWND)
  | setWindowRgn (hWnd : HWND) (hRgn : Option WINEREGION)
  | createWindow (hWnd : HWND) (wnd : Window) (tree : HWND → List HWND)

/-- A call, and for which windows the platform does what it is told. -/
structure Step where
  act : Act
  ok : HWND → Bool

/-- A scroll bar comes or goes. -/
def State.switches (s : State) (hWnd : HWND) (vert bEnable : Bool) : Bool :=
  (s.window hWnd).any fun wnd => wnd.hasBar vert != bEnable

/-- What a call changes before anything is computed again. -/
def changed (s : State) : Act → State
  | .windowPosChanged hWnd noMove noSize x y cx cy =>
    s.setWindow hWnd fun wnd => wnd.pos noMove noSize x y cx cy
  | .styleChange hWnd child border vscroll hscroll =>
    s.setWindow hWnd fun wnd => wnd.style child border vscroll hscroll
  | .showScrollBar hWnd vert horz bShow => s.setWindow hWnd fun wnd => wnd.showBars vert horz bShow
  | .setScrollInfo hWnd vert bEnable =>
    if s.switches hWnd vert bEnable then s.setWindow hWnd fun wnd => wnd.needBar vert bEnable else s
  | .showWindow _ => s
  | .setParent hWnd hParent tree =>
    { s.setWindow hWnd fun wnd => { wnd with parent := hParent } with tree := tree }
  | .setWindowRgn hWnd hRgn =>
    if (s.window hWnd).isSome then
      { s with clip := update s.clip hWnd { s.clip hWnd with hAppRgn := hRgn } }
    else s
  | .createWindow hWnd wnd tree =>
    if (s.window hWnd).isSome then s
    else (s.insert hWnd wnd tree).setWindow hWnd fun wnd => wnd.pos false false wnd.rc.left
      wnd.rc.top (wnd.rc.right - wnd.rc.left) (wnd.rc.bottom - wnd.rc.top)

/-- The calls, with the functions of the code; a handle that is there is not given to a new
window. -/
def step (s : State) (l : Step) : Option State :=
  match l.act with
  | .windowPosChanged hWnd _ _ _ _ _ _ => refresh l.ok (changed s l.act) hWnd
  | .styleChange hWnd _ _ _ _ => refresh l.ok (changed s l.act) hWnd
  | .showScrollBar hWnd _ _ _ => refresh l.ok (changed s l.act) hWnd
  | .setScrollInfo hWnd vert bEnable =>
    if s.switches hWnd vert bEnable then refresh l.ok (changed s l.act) hWnd else some s
  | .showWindow hWnd => refresh l.ok (changed s l.act) hWnd
  | .setParent hWnd _ _ => refresh l.ok (changed s l.act) hWnd
  | .setWindowRgn hWnd _ =>
    if (s.window hWnd).isSome then
      (refreshWindowClip l.ok (changed s l.act) hWnd true).map Prod.fst
    else some s
  | .createWindow hWnd _ _ =>
    if (s.window hWnd).isSome then some s else refresh l.ok (changed s l.act) hWnd

/-! ### What is owed -/

/-- The point is in the region of the application, if there is one. -/
def InApp (c : ClipState) (x y : ℤ) : Prop := ∀ rgn, c.hAppRgn = some rgn → rgn.Covers x y

/-- **What is remembered is what the platform was told.** -/
def Described (c : ClipState) : Prop :=
  (c.bClipPushed = false ∧ c.shape = c.hAppRgn) ∨
    (c.bClipPushed = true ∧ c.shape.isSome = true ∧ c.shape = clipRgn c.rcClipPushed c.hAppRgn)

/-- **The platform shows what is visible**, within the region of the application; where the whole
window is, it has that region and no other. -/
structure Current (d : Desktop) (c : ClipState) (hWnd : HWND) : Prop where
  whole : d.Whole hWnd → c.bClipPushed = false ∧ c.shape = c.hAppRgn
  part : ¬ d.Whole hWnd → c.bClipPushed = true ∧
    ∃ rgn, c.shape = some rgn ∧ ∀ x y, rgn.Covers x y ↔ d.Visible hWnd x y ∧ InApp c x y

/-- A window with `WS_CHILD` that has a size. -/
def Child (d : Desktop) (hWnd : HWND) : Prop :=
  ∃ wnd, d.window hWnd = some wnd ∧ wnd.bDestroyed = false ∧ wnd.child = true ∧
    wnd.rc.left < wnd.rc.right ∧ wnd.rc.top < wnd.rc.bottom

/-- **What is owed** after every call. -/
def Sound (s : State) : Prop :=
  ∀ hWnd, Child s.toDesktop hWnd →
    Described (s.clip hWnd) ∧ Current s.toDesktop (s.clip hWnd) hWnd

/-! ### Calls after which it is so -/

/-- The region is well-formed, and can be intersected with a rectangle. -/
def Fit (rgn : WINEREGION) : Prop :=
  rgn.WellFormed ∧ ∀ left top right bottom, ∃ m,
    intersectRegion (regions (createRectRgn left top right bottom) rgn) (.obj false) (.obj false)
      (.obj true) = .ok m

/-- The windows that are computed again. -/
def refreshed (s : State) (a : Act) : List HWND :=
  match a with
  | .windowPosChanged hWnd _ _ _ _ _ _ => hWnd :: (changed s a).children hWnd
  | .styleChange hWnd _ _ _ _ => hWnd :: (changed s a).children hWnd
  | .showScrollBar hWnd _ _ _ => hWnd :: (changed s a).children hWnd
  | .setScrollInfo hWnd vert bEnable =>
    if s.switches hWnd vert bEnable then hWnd :: (changed s a).children hWnd else []
  | .showWindow hWnd => hWnd :: (changed s a).children hWnd
  | .setParent hWnd _ _ => hWnd :: (changed s a).children hWnd
  | .setWindowRgn hWnd _ => if (s.window hWnd).isSome then [hWnd] else []
  | .createWindow hWnd _ _ =>
    if (s.window hWnd).isSome then [] else hWnd :: (changed s a).children hWnd

/-- **The condition**: what is visible changes for no other windows than those that are computed
again; these are below at most 64 others, and have no points between areas that do not meet; the
platform does what it is told; and the region of the application can be intersected. -/
structure Orderly (s : State) (l : Step) : Prop where
  ok : ∀ h ∈ refreshed s l.act, l.ok h = true
  app : ∀ h rgn, l.act = .setWindowRgn h (some rgn) → Fit rgn
  shallow : ∀ h ∈ refreshed s l.act, Child (changed s l.act).toDesktop h →
    (changed s l.act).Shallow h
  meet : ∀ h ∈ refreshed s l.act, Child (changed s l.act).toDesktop h → ∀ x y,
    (changed s l.act).Between h x y → ¬ InApp ((changed s l.act).clip h) x y
  others : ∀ h, h ∉ refreshed s l.act → Child (changed s l.act).toDesktop h → ∀ x y,
    ((changed s l.act).Visible h x y ↔ s.Visible h x y)

/-! ### The region of a rectangle -/

/-- The regions of applications that have been set. -/
def AppFit (c : ClipState) : Prop := ∀ rgn, c.hAppRgn = some rgn → Fit rgn

/-- **`CombineRgn` intersects.** -/
theorem combineAnd_spec {rgn : WINEREGION} (h : Fit rgn) (left top right bottom : ℤ) :
    ∃ r, combineAnd (createRectRgn left top right bottom) rgn = some r ∧
      ∀ x y, r.Covers x y ↔ (createRectRgn left top right bottom).Covers x y ∧ rgn.Covers x y := by
  obtain ⟨m, hm⟩ := h.2 left top right bottom
  have hclip : regions (createRectRgn left top right bottom) rgn (.obj false) =
      createRectRgn left top right bottom := update_of_ne (by decide) _ _
  have happ : regions (createRectRgn left top right bottom) rgn (.obj true) = rgn :=
    update_self _ _ _
  have hwf : (regions (createRectRgn left top right bottom) rgn (.obj false)).WellFormed := by
    rw [hclip]
    exact Region.setRectRgn_wellFormed _ _ _ _ _
  have hwf' : (regions (createRectRgn left top right bottom) rgn (.obj true)).WellFormed := by
    rw [happ]
    exact h.1
  have hspec := Region.intersectRegion_spec (.obj false) hwf hwf'
  rw [hm, Yields.ok_iff, hclip, happ] at hspec
  refine ⟨m (.obj false), ?_, hspec.points⟩
  have hop : Region.operation (ρ := Bool) RGN_AND = some intersectRegion := rfl
  simp only [combineAnd, combineRgn, hop, hm, Region.returnType]
  rfl

/-- **The region for a rectangle.** -/
theorem clipRgn_spec {c : ClipState} (h : AppFit c) (rc : RECT) :
    ∃ r, clipRgn rc c.hAppRgn = some r ∧ ∀ x y, r.Covers x y ↔
      (createRectRgn rc.left rc.top rc.right rc.bottom).Covers x y ∧ InApp c x y := by
  unfold clipRgn InApp
  cases happ : c.hAppRgn with
  | none => exact ⟨_, rfl, fun x y => by simp⟩
  | some rgn =>
    obtain ⟨r, hr, hcovers⟩ := combineAnd_spec (h rgn happ) rc.left rc.top rc.right rc.bottom
    refine ⟨r, hr, fun x y => ?_⟩
    rw [hcovers]
    simp only [Option.some.injEq, forall_eq']

/-! ### One window -/

/-- The window is there. -/
def Live (d : Desktop) (hWnd : HWND) : Prop :=
  ∃ wnd, d.window hWnd = some wnd ∧ wnd.bDestroyed = false

/-- What is remembered is what is wanted. -/
def Wanted (d : Desktop) (c : ClipState) (hWnd : HWND) : Prop :=
  ∀ rc, d.getWindowRect hWnd = some rc → c.bClipPushed = (d.clipWant hWnd rc).isSome ∧
    ∀ rcWant, d.clipWant hWnd rc = some rcWant → c.rcClipPushed = rcWant

variable {s : State} {ok : HWND → Bool} {hWnd : HWND}

theorem exists_getWindowRect (h : Live s.toDesktop hWnd) :
    ∃ rc, s.getWindowRect hWnd = some rc := by
  obtain ⟨wnd, hwnd, -⟩ := h
  refine Option.isSome_iff_exists.1 (Desktop.getWindowRect_isSome_iff.2 ?_)
  rw [Desktop.wndRect, hwnd]
  rfl

theorem refreshWindowClip_of_not_live (h : ¬ Live s.toDesktop hWnd) (bForce : Bool) :
    refreshWindowClip ok s hWnd bForce = some (s, false) := by
  unfold refreshWindowClip
  cases hwnd : s.window hWnd with
  | none => rfl
  | some wnd =>
    have hdead : wnd.bDestroyed = true := by
      by_contra hlive
      exact h ⟨wnd, hwnd, by simpa using hlive⟩
    simp only [hdead, if_true]

theorem push_eq (hok : ok hWnd = true) (c : ClipState) (rgn : Option WINEREGION) :
    s.push ok hWnd c rgn =
      ({ s with clip := update s.clip hWnd { c with shape := rgn } }, true) := by
  simp only [State.push, hok, if_true]

/-- **What `SbRefreshWindowClip` leaves.** -/
theorem refreshWindowClip_spec (hok : ok hWnd = true) (hlive : Live s.toDesktop hWnd)
    (happ : AppFit (s.clip hWnd)) {bForce : Bool}
    (hdesc : bForce = false → Described (s.clip hWnd)) :
    ∃ c, refreshWindowClip ok s hWnd bForce =
        some ({ s with clip := update s.clip hWnd c }, true) ∧
      c.hAppRgn = (s.clip hWnd).hAppRgn ∧ Described c ∧ Wanted s.toDesktop c hWnd := by
  obtain ⟨rc, hrc⟩ := exists_getWindowRect hlive
  obtain ⟨wnd, hwnd, hnot⟩ := hlive
  have hwanted : ∀ c : ClipState, (c.bClipPushed = (s.clipWant hWnd rc).isSome ∧
      ∀ rcWant, s.clipWant hWnd rc = some rcWant → c.rcClipPushed = rcWant) →
      Wanted s.toDesktop c hWnd := by
    intro c hc rc' hrc'
    obtain rfl := Option.some.inj (hrc.symm.trans hrc')
    exact hc
  unfold refreshWindowClip
  simp only [hwnd, hnot, Bool.false_eq_true, if_false, hrc]
  by_cases hneed : needPushClipRgn (s.clipWant hWnd rc) (s.clip hWnd).bClipPushed
      (s.clip hWnd).rcClipPushed bForce = false
  · -- The platform has what is wanted.
    rw [if_pos hneed]
    refine ⟨s.clip hWnd, ?_, rfl, ?_, hwanted _ ?_⟩
    · rw [update_eq_self]
    · cases bForce with
      | true => simp [needPushClipRgn] at hneed
      | false => exact hdesc rfl
    · cases bForce with
      | true => simp [needPushClipRgn] at hneed
      | false =>
        cases hwant : s.clipWant hWnd rc with
        | none => simpa [needPushClipRgn, hwant] using hneed
        | some rcWant =>
          cases hpushed : (s.clip hWnd).bClipPushed with
          | false => simp [needPushClipRgn, hwant, hpushed] at hneed
          | true =>
            simp only [needPushClipRgn, hwant, hpushed, Bool.false_eq_true, if_false,
              Bool.true_eq_false, ne_eq, decide_not, Bool.not_eq_false', decide_eq_true_eq] at hneed
            exact ⟨rfl, fun rcWant' h => hneed ▸ Option.some.inj h⟩
  · rw [if_neg hneed]
    cases hwant : s.clipWant hWnd rc with
    | none =>
      simp only [push_eq hok]
      refine ⟨_, rfl, rfl, .inl ⟨rfl, rfl⟩, hwanted _ ⟨?_, fun rcWant h => ?_⟩⟩
      · rw [hwant]
        rfl
      · rw [hwant] at h
        cases h
    | some rcWant =>
      obtain ⟨r, hr, -⟩ := clipRgn_spec happ rcWant
      simp only [hr, Option.map_some, push_eq hok]
      refine ⟨_, rfl, rfl, .inr ⟨rfl, rfl, hr.symm⟩, hwanted _ ⟨?_, fun rcWant' h => ?_⟩⟩
      · rw [hwant]
        rfl
      · exact Option.some.inj (hwant.symm.trans h)

/-! ### One window after the other -/

/-- What is known of every window that is there. -/
def Told (s : State) : Prop :=
  ∀ h, Live s.toDesktop h → AppFit (s.clip h) ∧ Described (s.clip h)

/-- **What is left when windows are computed again.** -/
structure Refreshed (s s' : State) (l : List HWND) : Prop where
  desktop : s'.toDesktop = s.toDesktop
  app : ∀ h, (s'.clip h).hAppRgn = (s.clip h).hAppRgn
  described : ∀ h, Live s.toDesktop h → Described (s'.clip h)
  wanted : ∀ h ∈ l, Live s.toDesktop h → Wanted s.toDesktop (s'.clip h) h
  others : ∀ h, h ∉ l → s'.clip h = s.clip h

theorem Refreshed.nil (h : Told s) : Refreshed s s [] :=
  ⟨rfl, fun _ => rfl, fun k hk => (h k hk).2, fun _ hk => absurd hk List.not_mem_nil,
    fun _ _ => rfl⟩

theorem Told.refreshed {s' : State} {l : List HWND} (h : Told s) (hr : Refreshed s s' l) :
    Told s' := by
  intro k hk
  rw [hr.desktop] at hk
  exact ⟨fun rgn happ => (h k hk).1 rgn (hr.app k ▸ happ), hr.described k hk⟩

theorem Refreshed.cons {s' s'' : State} {l : List HWND} (h : Refreshed s s' [hWnd])
    (h' : Refreshed s' s'' l) : Refreshed s s'' (hWnd :: l) := by
  have hlive : ∀ k, Live s.toDesktop k → Live s'.toDesktop k := fun k hk => by
    rw [h.desktop]
    exact hk
  refine ⟨h'.desktop.trans h.desktop, fun k => (h'.app k).trans (h.app k),
    fun k hk => h'.described k (hlive k hk), fun k hk hkl => ?_, fun k hk => ?_⟩
  · by_cases hmem : k ∈ l
    · have := h'.wanted k hmem (hlive k hkl)
      rwa [h.desktop] at this
    · rw [h'.others k hmem]
      have hkw : k = hWnd := (List.mem_cons.1 hk).resolve_right hmem
      exact h.wanted k (List.mem_singleton.2 hkw) hkl
  · rw [List.mem_cons, not_or] at hk
    exact (h'.others k hk.2).trans (h.others k (by simpa using hk.1))

theorem refreshWindowClip_refreshed (hok : ok hWnd = true) (bForce : Bool)
    (htold : ∀ h, Live s.toDesktop h → AppFit (s.clip h) ∧
      ((h = hWnd → bForce = false) → Described (s.clip h))) :
    ∃ s' b, refreshWindowClip ok s hWnd bForce = some (s', b) ∧ Refreshed s s' [hWnd] := by
  by_cases hlive : Live s.toDesktop hWnd
  · obtain ⟨happ, hdesc⟩ := htold hWnd hlive
    obtain ⟨c, hcall, hsame, hdesc', hwanted⟩ := refreshWindowClip_spec hok hlive happ
      (fun hforce => hdesc fun _ => hforce)
    refine ⟨_, _, hcall, ⟨rfl, fun h => ?_, fun h hh => ?_, fun h hh _ => ?_, fun h hh => ?_⟩⟩
    · rcases eq_or_ne h hWnd with rfl | hne
      · simp only [update_self, hsame]
      · simp only [update_of_ne hne]
    · rcases eq_or_ne h hWnd with rfl | hne
      · simpa only [update_self] using hdesc'
      · simpa only [update_of_ne hne] using (htold h hh).2 fun heq => absurd heq hne
    · obtain rfl := List.mem_singleton.1 hh
      simpa only [update_self] using hwanted
    · exact update_of_ne (by simpa using hh) _ _
  · refine ⟨s, false, refreshWindowClip_of_not_live hlive bForce, rfl, fun _ => rfl,
      fun h hh => (htold h hh).2 fun heq => absurd (heq ▸ hh) hlive, fun h hh hl => ?_,
      fun _ _ => rfl⟩
    obtain rfl := List.mem_singleton.1 hh
    exact absurd hl hlive

theorem refreshList_spec (l : List HWND) (hok : ∀ h ∈ l, ok h = true) (htold : Told s) :
    ∃ s', refreshList ok s l = some s' ∧ Refreshed s s' l := by
  induction l generalizing s with
  | nil => exact ⟨s, rfl, Refreshed.nil htold⟩
  | cons h l ih =>
    obtain ⟨s₁, b, hcall, hr⟩ := refreshWindowClip_refreshed (hok h List.mem_cons_self) false
      fun k hk => ⟨(htold k hk).1, fun _ => (htold k hk).2⟩
    obtain ⟨s₂, hcall₂, hr₂⟩ := ih (fun k hk => hok k (List.mem_cons_of_mem _ hk))
      (htold.refreshed hr)
    refine ⟨s₂, ?_, hr.cons hr₂⟩
    rw [refreshList, hcall]
    exact hcall₂

/-- **A window and its children.** -/
theorem refresh_spec (hok : ∀ h ∈ hWnd :: s.children hWnd, ok h = true) (htold : Told s) :
    ∃ s', refresh ok s hWnd = some s' ∧ Refreshed s s' (hWnd :: s.children hWnd) := by
  obtain ⟨s₁, b, hcall, hr⟩ := refreshWindowClip_refreshed (hok hWnd List.mem_cons_self) false
    fun k hk => ⟨(htold k hk).1, fun _ => (htold k hk).2⟩
  have hchildren : s₁.children hWnd = s.children hWnd := by
    unfold State.children
    rw [hr.desktop]
  obtain ⟨s₂, hcall₂, hr₂⟩ := refreshList_spec (s.children hWnd)
    (fun k hk => hok k (List.mem_cons_of_mem _ hk)) (htold.refreshed hr)
  refine ⟨s₂, ?_, hr.cons hr₂⟩
  rw [refresh, hcall, Option.bind_some, refreshChildClips, hchildren]
  exact hcall₂

/-! ### What is shown -/

theorem windowRectLoop_size (d : Desktop) (n : ℕ) (h : HWND) (rc : RECT) :
    (d.windowRectLoop n h rc).right - (d.windowRectLoop n h rc).left = rc.right - rc.left ∧
      (d.windowRectLoop n h rc).bottom - (d.windowRectLoop n h rc).top = rc.bottom - rc.top := by
  induction n generalizing h rc with
  | zero => exact ⟨rfl, rfl⟩
  | succ n ih =>
    rw [Desktop.windowRectLoop]
    cases d.above h with
    | none => exact ⟨rfl, rfl⟩
    | some hParent =>
      simp only
      cases d.wndRect hParent with
      | none => exact ⟨rfl, rfl⟩
      | some rcParent =>
        obtain ⟨hwidth, hheight⟩ := ih hParent (rc.offset rcParent.left rcParent.top)
        simp only [RECT.offset] at hwidth hheight ⊢
        omega

theorem Child.size {d : Desktop} {rc : RECT} (h : Child d hWnd)
    (hrc : d.getWindowRect hWnd = some rc) : rc.left < rc.right ∧ rc.top < rc.bottom := by
  obtain ⟨wnd, hwnd, -, -, hwidth, hheight⟩ := h
  rw [Desktop.getWindowRect, Desktop.wndRect, hwnd] at hrc
  obtain ⟨h1, h2⟩ := windowRectLoop_size d d.fuel hWnd wnd.rc
  obtain rfl := Option.some.inj hrc
  omega

theorem Child.live {d : Desktop} (h : Child d hWnd) : Live d hWnd := by
  obtain ⟨wnd, hwnd, hlive, -⟩ := h
  exact ⟨wnd, hwnd, hlive⟩

/-- **What is wanted is what is to be shown.** -/
theorem current_of_wanted {d : Desktop} {c : ClipState} (hchild : Child d hWnd)
    (hshallow : d.Shallow hWnd) (happ : AppFit c) (hdesc : Described c)
    (hwanted : Wanted d c hWnd) (hmeet : ∀ x y, d.Between hWnd x y → ¬ InApp c x y) :
    Current d c hWnd := by
  obtain ⟨rc, hrc⟩ : ∃ rc, d.getWindowRect hWnd = some rc := by
    obtain ⟨wnd, hwnd, -⟩ := hchild
    refine Option.isSome_iff_exists.1 (Desktop.getWindowRect_isSome_iff.2 ?_)
    rw [Desktop.wndRect, hwnd]
    rfl
  obtain ⟨hwidth, hheight⟩ := hchild.size hrc
  obtain ⟨hpushed, hrect⟩ := hwanted rc hrc
  rcases Desktop.clipWant_eq hrc hshallow hwidth hheight with ⟨hwhole, hwant⟩ | ⟨hpart, hwant⟩
  · rw [hwant] at hpushed
    refine ⟨fun _ => ⟨hpushed, ?_⟩, fun hn => absurd hwhole hn⟩
    rcases hdesc with ⟨-, hshape⟩ | ⟨htrue, -⟩
    · exact hshape
    · rw [hpushed] at htrue
      cases htrue
  · rw [hwant] at hpushed
    refine ⟨fun hw => absurd hw hpart, fun _ => ⟨hpushed, ?_⟩⟩
    rcases hdesc with ⟨hfalse, -⟩ | ⟨-, -, hshape⟩
    · rw [hpushed] at hfalse
      cases hfalse
    · obtain ⟨r, hr, hcovers⟩ := clipRgn_spec happ c.rcClipPushed
      refine ⟨r, hshape.trans hr, fun x y => ?_⟩
      rw [hcovers, hrect _ hwant, Desktop.covers_clipRect hrc]
      constructor
      · rintro ⟨hvisible | hbetween, hin⟩
        · exact ⟨hvisible, hin⟩
        · exact absurd hin (hmeet x y hbetween)
      · rintro ⟨hvisible, hin⟩
        exact ⟨.inl hvisible, hin⟩

/-! ### What a call changes -/

theorem live_of_setWindow {f : Window → Window} (hf : ∀ wnd, (f wnd).bDestroyed = wnd.bDestroyed)
    {h : HWND} (hlive : Live (s.setWindow hWnd f).toDesktop h) : Live s.toDesktop h := by
  obtain ⟨wnd, hwnd, hnot⟩ := hlive
  simp only [State.setWindow, update_apply] at hwnd
  split_ifs at hwnd with heq
  · obtain ⟨wnd', hwnd', rfl⟩ := Option.map_eq_some_iff.1 hwnd
    exact ⟨wnd', heq ▸ hwnd', (hf wnd').symm.trans hnot⟩
  · exact ⟨wnd, hwnd, hnot⟩

theorem Told.setWindow (h : Told s) {f : Window → Window}
    (hf : ∀ wnd, (f wnd).bDestroyed = wnd.bDestroyed) : Told (s.setWindow hWnd f) :=
  fun k hk => h k (live_of_setWindow hf hk)

theorem bDestroyed_size (wnd : Window) (cx cy : ℤ) :
    (wnd.size cx cy).bDestroyed = wnd.bDestroyed := by
  unfold Window.size
  split_ifs <;> rfl

theorem bDestroyed_pos (wnd : Window) (noMove noSize : Bool) (x y cx cy : ℤ) :
    (wnd.pos noMove noSize x y cx cy).bDestroyed = wnd.bDestroyed := by
  unfold Window.pos
  cases noMove <;> cases noSize <;>
    simp only [Bool.false_eq_true, if_false, if_true, bDestroyed_size, Window.move]

theorem bDestroyed_needBar (wnd : Window) (vert bEnable : Bool) :
    (wnd.needBar vert bEnable).bDestroyed = wnd.bDestroyed := by
  unfold Window.needBar
  split_ifs <;> rfl

theorem Told.insert (h : Told s) (wnd : Window) (tree : HWND → List HWND) :
    Told (s.insert hWnd wnd tree) := by
  rintro k ⟨wnd', hwnd', hnot⟩
  rcases eq_or_ne k hWnd with rfl | hne
  · simp only [State.insert, update_self]
    exact ⟨fun rgn hrgn => (by cases hrgn), .inl ⟨rfl, rfl⟩⟩
  · simp only [State.insert, update_of_ne hne] at hwnd' ⊢
    exact h k ⟨wnd', hwnd', hnot⟩

theorem told_changed (h : Told s) (a : Act) (happ : ∀ k rgn, a = .setWindowRgn k (some rgn) →
    Fit rgn) : ∀ k, Live (changed s a).toDesktop k → AppFit ((changed s a).clip k) ∧
      ((∀ rgn, a ≠ .setWindowRgn k rgn) → Described ((changed s a).clip k)) := by
  have hplain : Told (changed s a) → ∀ k, Live (changed s a).toDesktop k →
      AppFit ((changed s a).clip k) ∧
        ((∀ rgn, a ≠ .setWindowRgn k rgn) → Described ((changed s a).clip k)) :=
    fun ht k hk => ⟨(ht k hk).1, fun _ => (ht k hk).2⟩
  cases a with
  | windowPosChanged hWnd noMove noSize x y cx cy =>
    exact hplain (h.setWindow fun wnd => bDestroyed_pos wnd noMove noSize x y cx cy)
  | styleChange hWnd child border vscroll hscroll => exact hplain (h.setWindow fun _ => rfl)
  | showScrollBar hWnd vert horz bShow => exact hplain (h.setWindow fun _ => rfl)
  | setScrollInfo hWnd vert bEnable =>
    refine hplain ?_
    simp only [changed]
    split_ifs
    · exact h.setWindow fun wnd => bDestroyed_needBar wnd vert bEnable
    · exact h
  | showWindow hWnd => exact hplain h
  | setParent hWnd hParent tree =>
    exact hplain (h.setWindow (f := fun wnd => { wnd with parent := hParent }) fun _ => rfl)
  | createWindow hWnd wnd tree =>
    refine hplain ?_
    simp only [changed]
    split_ifs
    · exact h
    · exact (h.insert wnd tree).setWindow fun wnd => bDestroyed_pos wnd _ _ _ _ _ _
  | setWindowRgn hWnd hRgn =>
    intro k hk
    simp only [changed] at hk ⊢
    split_ifs at hk ⊢ with hsome
    · rcases eq_or_ne k hWnd with rfl | hne
      · simp only [update_self]
        refine ⟨fun rgn hrgn => happ k rgn ?_, fun hne => absurd rfl (hne hRgn)⟩
        rw [← hrgn]
      · simp only [update_of_ne hne]
        exact ⟨(h k hk).1, fun _ => (h k hk).2⟩
    · exact ⟨(h k hk).1, fun _ => (h k hk).2⟩

theorem changed_of_not_mem (a : Act) {h : HWND} (hmem : h ∉ refreshed s a) :
    (changed s a).window h = s.window h ∧ (changed s a).clip h = s.clip h := by
  have hset : ∀ {k : HWND} {f : Window → Window}, h ≠ k →
      (s.setWindow k f).window h = s.window h ∧ (s.setWindow k f).clip h = s.clip h :=
    fun hne => ⟨update_of_ne hne _ _, rfl⟩
  cases a with
  | windowPosChanged hWnd noMove noSize x y cx cy => exact hset (List.ne_of_not_mem_cons hmem)
  | styleChange hWnd child border vscroll hscroll => exact hset (List.ne_of_not_mem_cons hmem)
  | showScrollBar hWnd vert horz bShow => exact hset (List.ne_of_not_mem_cons hmem)
  | setScrollInfo hWnd vert bEnable =>
    simp only [refreshed, changed] at hmem ⊢
    split_ifs at hmem ⊢ with hswitch
    · exact hset (List.ne_of_not_mem_cons hmem)
    · exact ⟨rfl, rfl⟩
  | showWindow hWnd => exact ⟨rfl, rfl⟩
  | setParent hWnd hParent tree => exact hset (List.ne_of_not_mem_cons hmem)
  | setWindowRgn hWnd hRgn =>
    simp only [refreshed, changed] at hmem ⊢
    split_ifs at hmem ⊢ with hsome
    · exact ⟨rfl, update_of_ne (by simpa using hmem) _ _⟩
    · exact ⟨rfl, rfl⟩
  | createWindow hWnd wnd tree =>
    simp only [refreshed, changed] at hmem ⊢
    split_ifs at hmem ⊢ with hsome
    · exact ⟨rfl, rfl⟩
    · have hne := List.ne_of_not_mem_cons hmem
      simp only [State.setWindow, State.insert, update_of_ne hne, and_self]

/-! ### Every call -/

/-- **The invariant** -/
structure Inv (s : State) : Prop where
  told : Told s
  current : ∀ h, Child s.toDesktop h → Current s.toDesktop (s.clip h) h

theorem Inv.sound (h : Inv s) : Sound s := fun k hk =>
  ⟨(h.told k hk.live).2, h.current k hk⟩

theorem own_rect {d : Desktop} {wnd : Window} {rc : RECT} (hwnd : d.window hWnd = some wnd)
    (hrc : d.getWindowRect hWnd = some rc) : rc.offset (-rc.left) (-rc.top) =
      ⟨0, 0, wnd.rc.right - wnd.rc.left, wnd.rc.bottom - wnd.rc.top⟩ := by
  rw [Desktop.getWindowRect, Desktop.wndRect, hwnd] at hrc
  obtain ⟨h1, h2⟩ := windowRectLoop_size d d.fuel hWnd wnd.rc
  obtain rfl := Option.some.inj hrc
  simp only [RECT.offset, Region.RECT.mk.injEq]
  omega

theorem whole_iff {d : Desktop} {wnd : Window} (hwnd : d.window hWnd = some wnd) :
    d.Whole hWnd ↔ ∀ x y, ptInRect ⟨0, 0, wnd.rc.right - wnd.rc.left, wnd.rc.bottom - wnd.rc.top⟩
      x y → d.Visible hWnd x y := by
  obtain ⟨rc, hrc⟩ : ∃ rc, d.getWindowRect hWnd = some rc := by
    refine Option.isSome_iff_exists.1 (Desktop.getWindowRect_isSome_iff.2 ?_)
    rw [Desktop.wndRect, hwnd]
    rfl
  rw [Desktop.Whole, Desktop.exists_getWindowRect_iff hrc, own_rect hwnd hrc]

theorem Current.congr {d d' : Desktop} {c : ClipState} (h : Current d c hWnd)
    (hchild : Child d hWnd) (hwnd : d'.window hWnd = d.window hWnd)
    (hvisible : ∀ x y, d'.Visible hWnd x y ↔ d.Visible hWnd x y) : Current d' c hWnd := by
  obtain ⟨wnd, hw, -⟩ := hchild
  have hwhole : d'.Whole hWnd ↔ d.Whole hWnd := by
    rw [whole_iff hw, whole_iff (hwnd.trans hw)]
    simp only [hvisible]
  refine ⟨fun hw => h.whole (hwhole.1 hw), fun hn => ?_⟩
  obtain ⟨hpushed, rgn, hshape, hcovers⟩ := h.part fun hw => hn (hwhole.2 hw)
  refine ⟨hpushed, rgn, hshape, fun x y => ?_⟩
  rw [hcovers, hvisible]

/-- **The invariant after a call**, whichever it was. -/
theorem inv_of_refreshed {s' : State} {l : Step} (h : Inv s) (ho : Orderly s l)
    (hr : Refreshed (changed s l.act) s' (refreshed s l.act)) : Inv s' := by
  have htold := told_changed h.told l.act ho.app
  have happ : ∀ k, Live (changed s l.act).toDesktop k → AppFit (s'.clip k) := fun k hk rgn hrgn =>
    (htold k hk).1 rgn (hr.app k ▸ hrgn)
  refine ⟨fun k hk => ?_, fun k hk => ?_⟩
  · rw [hr.desktop] at hk
    exact ⟨happ k hk, hr.described k hk⟩
  · rw [hr.desktop] at hk ⊢
    by_cases hmem : k ∈ refreshed s l.act
    · refine current_of_wanted hk (ho.shallow k hmem hk) (happ k hk.live)
        (hr.described k hk.live) (hr.wanted k hmem hk.live) fun x y hbetween hin => ?_
      refine ho.meet k hmem hk x y hbetween fun rgn hrgn => hin rgn ?_
      rw [hr.app, hrgn]
    · obtain ⟨hwnd, hclip⟩ := changed_of_not_mem l.act hmem
      have hchild : Child s.toDesktop k := by
        obtain ⟨wnd, hw, hrest⟩ := hk
        exact ⟨wnd, hwnd.symm.trans hw, hrest⟩
      rw [hr.others k hmem, hclip]
      exact (h.current k hchild).congr hchild hwnd (ho.others k hmem hk)

/-- **The step lemma.** -/
theorem step_spec {l : Step} (h : Inv s) (ho : Orderly s l) :
    ∃ s', step s l = some s' ∧ Inv s' := by
  obtain ⟨a, ok⟩ := l
  have htold := told_changed h.told a ho.app
  suffices hcall : ∃ s', step s ⟨a, ok⟩ = some s' ∧ Refreshed (changed s a) s' (refreshed s a) by
    obtain ⟨s', hstep, hr⟩ := hcall
    exact ⟨s', hstep, inv_of_refreshed h ho hr⟩
  have hok := ho.ok
  -- All calls but `SetWindowRgn` compute again without being forced.
  have hplain : (∀ k rgn, a ≠ .setWindowRgn k rgn) → ∀ hWnd,
      (∀ k ∈ hWnd :: (changed s a).children hWnd, ok k = true) →
      ∃ s', refresh ok (changed s a) hWnd = some s' ∧
        Refreshed (changed s a) s' (hWnd :: (changed s a).children hWnd) := fun hne hWnd hall =>
    refresh_spec hall fun k hk => ⟨(htold k hk).1, (htold k hk).2 fun rgn => hne k rgn⟩
  have hskip : changed s a = s → refreshed s a = [] →
      ∃ s', some s = some s' ∧ Refreshed (changed s a) s' (refreshed s a) := fun hsame hnil => by
    rw [hsame, hnil]
    exact ⟨s, rfl, Refreshed.nil h.told⟩
  cases a with
  | windowPosChanged hWnd noMove noSize x y cx cy => exact hplain nofun hWnd hok
  | styleChange hWnd child border vscroll hscroll => exact hplain nofun hWnd hok
  | showScrollBar hWnd vert horz bShow => exact hplain nofun hWnd hok
  | showWindow hWnd => exact hplain nofun hWnd hok
  | setParent hWnd hParent tree => exact hplain nofun hWnd hok
  | setScrollInfo hWnd vert bEnable =>
    simp only [step]
    by_cases hswitch : s.switches hWnd vert bEnable = true
    · simp only [refreshed, if_pos hswitch] at hok ⊢
      exact hplain nofun hWnd hok
    · rw [if_neg hswitch]
      exact hskip (by simp only [changed, if_neg hswitch])
        (by simp only [refreshed, if_neg hswitch])
  | createWindow hWnd wnd tree =>
    simp only [step]
    by_cases hsome : (s.window hWnd).isSome = true
    · rw [if_pos hsome]
      exact hskip (by simp only [changed, if_pos hsome]) (by simp only [refreshed, if_pos hsome])
    · simp only [refreshed, if_neg hsome] at hok ⊢
      exact hplain nofun hWnd hok
  | setWindowRgn hWnd hRgn =>
    simp only [step]
    by_cases hsome : (s.window hWnd).isSome = true
    · simp only [refreshed, if_pos hsome] at hok ⊢
      have hothers : ∀ k, (k = hWnd → true = false) → ∀ rgn,
          Act.setWindowRgn hWnd hRgn ≠ .setWindowRgn k rgn := by
        intro k hne rgn heq
        injection heq with hk'
        exact absurd (hne hk'.symm) (by decide)
      obtain ⟨s', b, hcall, hr⟩ := refreshWindowClip_refreshed
        (hok hWnd (List.mem_singleton.2 rfl)) true
        fun k hk => ⟨(htold k hk).1, fun hne => (htold k hk).2 (hothers k hne)⟩
      exact ⟨s', by rw [hcall]; rfl, hr⟩
    · rw [if_neg hsome]
      exact hskip (by simp only [changed, if_neg hsome]) (by simp only [refreshed, if_neg hsome])

/-- **The windows**; `none` is undefined. -/
def windows : LTS (Option State) Step where
  next w l := some (w.bind fun s => step s l)

/-- There are no windows. -/
def State.init (metrics : Metrics) (geometry : HWND → Option (ℤ × ℤ)) (tree : HWND → List HWND) :
    State where
  metrics := metrics
  geometry := geometry
  handles := []
  window := fun _ => none
  tree := tree
  clip := fun _ => ⟨none, false, rectEmpty, none⟩

theorem Inv.init (metrics : Metrics) (geometry : HWND → Option (ℤ × ℤ))
    (tree : HWND → List HWND) : Inv (State.init metrics geometry tree) := by
  refine ⟨?_, ?_⟩
  · rintro k ⟨wnd, ⟨⟩, -⟩
  · rintro k ⟨wnd, ⟨⟩, -⟩

/-- **The clips are kept**: as long as calls are orderly, after every one of them every child shows
what is visible of it, and what is remembered is what the platform was told. -/
theorem clips_current (metrics : Metrics) (geometry : HWND → Option (ℤ × ℤ))
    (tree : HWND → List HWND) (calls : List Step)
    (h : windows.AllSteps (fun w l => ∀ s, w = some s → Orderly s l)
      (some (State.init metrics geometry tree)) calls) :
    windows.AllStates (fun w => ∃ s, w = some s ∧ Sound s)
      (some (State.init metrics geometry tree)) calls := by
  refine LTS.allStates_of_allSteps (I := fun w => ∃ s, w = some s ∧ Inv s) ?_ ?_
    ⟨_, rfl, Inv.init metrics geometry tree⟩ h
  · rintro w ⟨s, rfl, hinv⟩
    exact ⟨s, rfl, hinv.sound⟩
  · rintro w l w' ⟨s, rfl, hinv⟩ ho hnext
    obtain ⟨s', hstep, hinv'⟩ := step_spec hinv (ho s rfl)
    refine ⟨s', ?_, hinv'⟩
    simp only [windows, Option.bind_some, hstep, Option.some.injEq] at hnext
    exact hnext.symm

/-! ### Three windows -/

/-- A window with these sides, in a parent if it is a child. -/
def plain (rc : RECT) (parent : Option HWND) : Window where
  child := parent.isSome
  border := false
  vscroll := false
  hscroll := false
  sbVert := false
  sbHorz := false
  rc := rc
  parent := parent
  bmp := true
  bDestroyed := false

/-- Window 3 is in window 2, and that in window 1. -/
def nested (hWnd : HWND) : List HWND := if hWnd = 1 then [2] else if hWnd = 2 then [3] else []

def start : State := State.init ⟨2, 2, 16, 16⟩ (fun _ => none) nested

/-- Window `hWnd` is made, and the platform does what it is told. -/
def make (hWnd : HWND) (rc : RECT) (parent : Option HWND) : Step :=
  ⟨.createWindow hWnd (plain rc parent) nested, fun _ => true⟩

theorem no_child (h : HWND) : ¬ Child (changed start (make 1 ⟨0, 0, 100, 100⟩ none).act).toDesktop
    h := by
  rintro ⟨wnd, hwnd, -, hchild, -⟩
  replace hwnd : update (update (fun _ => none) 1 (some (plain ⟨0, 0, 100, 100⟩
    none))) 1 (some (plain ⟨0, 0, 100, 100⟩ none)) h = some wnd := hwnd
  simp only [update_apply] at hwnd
  split_ifs at hwnd
  obtain rfl := Option.some.inj hwnd
  cases hchild

theorem only_child {rc : RECT} {h : HWND} (hc : Child (changed
    (changed start (make 1 ⟨0, 0, 100, 100⟩ none).act) (make 2 rc (some 1)).act).toDesktop h) :
    h = 2 := by
  by_contra hne
  refine no_child h ?_
  obtain ⟨wnd, hwnd, hrest⟩ := hc
  refine ⟨wnd, ?_, hrest⟩
  rw [← hwnd]
  exact ((update_of_ne hne _ _).trans (update_of_ne hne _ _)).symm

/-- A window, and one that is made in it, half outside. -/
theorem clips_current_corner : windows.AllStates (fun w => ∃ s, w = some s ∧ Sound s) (some start)
    [make 1 ⟨0, 0, 100, 100⟩ none, make 2 ⟨50, 50, 150, 150⟩ (some 1)] := by
  refine clips_current _ _ _ _ fun w hw => ⟨?_, fun w' _ => ⟨?_, trivial⟩⟩
  · intro s hs
    obtain rfl := Option.some.inj hs
    exact ⟨fun _ _ => rfl, nofun, fun h _ hc => absurd hc (no_child h),
      fun h _ hc => absurd hc (no_child h), fun h _ hc => absurd hc (no_child h)⟩
  · intro s hs
    have hfirst : w = some (changed start (make 1 ⟨0, 0, 100, 100⟩ none).act) :=
      (Option.some.inj hw).symm
    obtain rfl := Option.some.inj (hs.symm.trans hfirst)
    have hrect : (changed (changed start (make 1 ⟨0, 0, 100, 100⟩ none).act)
        (make 2 ⟨50, 50, 150, 150⟩ (some 1)).act).getWindowRect 2 = some ⟨50, 50, 150, 150⟩ := rfl
    have hclip : (changed (changed start (make 1 ⟨0, 0, 100, 100⟩ none).act)
        (make 2 ⟨50, 50, 150, 150⟩ (some 1)).act).clipRect 2 ⟨50, 50, 150, 150⟩ =
          ⟨0, 0, 50, 50⟩ := by decide
    refine ⟨fun _ _ => rfl, nofun, fun h _ hc => ?_, fun h _ hc x y hbetween => ?_,
      fun h hmem hc => ?_⟩
    · obtain rfl := only_child hc
      exact ⟨by decide, by decide⟩
    · obtain rfl := only_child hc
      rw [Desktop.Between, Desktop.exists_getWindowRect_iff hrect] at hbetween
      obtain ⟨-, -, hcrossed⟩ := hbetween
      obtain ⟨hX, hY⟩ := Desktop.crossed_areas_iff _ 2 ⟨50, 50, 150, 150⟩ x y
      rw [hX, hY, hclip] at hcrossed
      simp only at hcrossed
      omega
    · obtain rfl := only_child hc
      exact absurd List.mem_cons_self hmem

/-- **A window shows outside of the client area of its grandparent**, by calls that all succeed. -/
theorem grandchild_shows : ¬ ∀ (metrics : Metrics) (geometry : HWND → Option (ℤ × ℤ))
    (tree : HWND → List HWND) (calls : List Step), (∀ l ∈ calls, ∀ h, l.ok h = true) →
    windows.AllStates (fun w => ∃ s, w = some s ∧ Sound s)
      (some (State.init metrics geometry tree)) calls := by
  intro h
  have hall := h ⟨2, 2, 16, 16⟩ (fun _ => none) nested
    [make 1 ⟨0, 0, 100, 100⟩ none, make 2 ⟨0, 0, 100, 100⟩ (some 1),
      make 3 ⟨0, 0, 100, 100⟩ (some 2),
      ⟨.windowPosChanged 1 true false 0 0 50 50, fun _ => true⟩] (by
        intro l hl k
        simp only [List.mem_cons, List.not_mem_nil, or_false] at hl
        rcases hl with rfl | rfl | rfl | rfl <;> rfl)
  obtain ⟨s, hs, hsound⟩ := (((hall.2 _ rfl).2 _ rfl).2 _ rfl).2 _ rfl
  have hwnd : s.window 3 = some (plain ⟨0, 0, 100, 100⟩ (some 2)) :=
    Option.some.inj (congrArg (Option.map fun s : State => s.window 3) hs.symm)
  have hpushed : (s.clip 3).bClipPushed = false :=
    Option.some.inj (congrArg (Option.map fun s : State => (s.clip 3).bClipPushed) hs.symm)
  have hrect : s.getWindowRect 3 = some ⟨0, 0, 100, 100⟩ :=
    Option.some.inj (congrArg (Option.map fun s : State => s.getWindowRect 3) hs.symm)
  have hareas : s.areas 3 ⟨0, 0, 100, 100⟩ =
      [⟨0, 0, 100, 100⟩, ⟨0, 0, 100, 100⟩, ⟨0, 0, 50, 50⟩] :=
    Option.some.inj (congrArg (Option.map fun s : State => s.areas 3 ⟨0, 0, 100, 100⟩) hs.symm)
  obtain ⟨-, hwhole, hpart⟩ := hsound 3 ⟨_, hwnd, rfl, rfl, by decide, by decide⟩
  by_cases hw : s.Whole 3
  · -- The window is not whole: a point outside of window 1 is not visible.
    rw [whole_iff hwnd] at hw
    have hvisible := hw 75 75 (by decide)
    rw [Desktop.Visible, Desktop.exists_getWindowRect_iff hrect, hareas] at hvisible
    exact absurd (hvisible ⟨0, 0, 50, 50⟩ (by decide)) (by decide)
  · rw [(hpart hw).1] at hpushed
    cases hpushed

end Clip

end Swinx
