import Mathlib
import Swinx.LTS.Basic

/-!
# The state of the scroll bars

A window has the range, the page and the position of two scroll bars, and it keeps in two places
which of them are there: in `dwStyle` and in `showSbFlags`.

A call writes the fields that its mask names one after the other.  The position is then brought into
the range, up to a limit that is computed with the unsigned page.

* `scrollCalls_iff` — all calls of a run are correct if and only if they are orderly.
* `rejected_changes` — a range that is not accepted leaves the page changed, and the call succeeds.
-/

namespace Swinx

namespace ScrollInfo

def SIF_RANGE : UInt32 := 0x0001

def SIF_PAGE : UInt32 := 0x0002

def SIF_POS : UInt32 := 0x0004

def SIF_TRACKPOS : UInt32 := 0x0010

def SB_HORZ : UInt32 := 1

def SB_VERT : UInt32 := 2

structure SCROLLINFO where
  nMin : Int32
  nMax : Int32
  nPage : UInt32
  nPos : Int32
  nTrackPos : Int32
  deriving DecidableEq

/-- What a window keeps of a scroll bar. -/
structure Bar where
  info : SCROLLINFO
  /-- The bit in `dwStyle`. -/
  style : Bool
  /-- The bit in `dwExStyle`. -/
  exStyle : Bool
  /-- The bit in `showSbFlags`. -/
  shown : Bool
  deriving DecidableEq

/-- A window. -/
structure Window where
  /-- `SB_VERT` -/
  vert : Bar
  /-- `SB_HORZ` -/
  horz : Bar
  deriving DecidableEq

/-- The mask names the fields. -/
def named (fMask bit : UInt32) : Bool := fMask &&& bit ≠ 0

/-- A position is brought into the range. -/
def clamp (nMin posMax pos : Int32) : Int32 :=
  let pos := if pos < nMin then nMin else pos
  if posMax < pos then if posMax < nMin then nMin else posMax else pos

/-- `posMax`, computed with the unsigned page. -/
def SCROLLINFO.posMax (si : SCROLLINFO) : Int32 := (si.nMax.toUInt32 - si.nPage + 1).toInt32

/-- The end of `SetScrollInfoByMask`. -/
def SCROLLINFO.clamped (si : SCROLLINFO) : SCROLLINFO :=
  { si with
    nTrackPos := if si.nTrackPos ≠ -1 then clamp si.nMin si.posMax si.nTrackPos else si.nTrackPos
    nPos := clamp si.nMin si.posMax si.nPos }

/-- The fields that are written before the range is checked. -/
def SCROLLINFO.written (dst src : SCROLLINFO) (fMask : UInt32) : SCROLLINFO :=
  { dst with
    nPage := if named fMask SIF_PAGE then src.nPage else dst.nPage
    nPos := if named fMask SIF_POS then src.nPos else dst.nPos
    nTrackPos := if named fMask SIF_TRACKPOS then src.nTrackPos else dst.nTrackPos }

/-- All fields that the mask names. -/
def SCROLLINFO.merged (dst src : SCROLLINFO) (fMask : UInt32) : SCROLLINFO :=
  { dst.written src fMask with
    nMin := if named fMask SIF_RANGE then src.nMin else dst.nMin
    nMax := if named fMask SIF_RANGE then src.nMax else dst.nMax }

/-- `SetScrollInfoByMask` -/
def setScrollInfoByMask (dst src : SCROLLINFO) (fMask : UInt32) : Bool × SCROLLINFO :=
  if named fMask SIF_PAGE ∧ src.nPage ≤ 0 then (false, dst)
  else if named fMask SIF_RANGE ∧ src.nMax < src.nMin then (false, dst.written src fMask)
  else (true, (dst.merged src fMask).clamped)

/-- How many positions there are. -/
def SCROLLINFO.count (si : SCROLLINFO) : ℤ := si.nMax.toInt - si.nMin.toInt + 1

/-- `bEnable`; the number of positions is computed as an `int`, whose overflow is undefined. -/
def SCROLLINFO.enabled (si : SCROLLINFO) : Option Bool :=
  if -0x80000000 ≤ si.count - 1 ∧ si.count - 1 ≤ 0x7FFFFFFF ∧ si.count ≤ 0x7FFFFFFF then
    some (decide ((si.nPage.toNat : ℤ) < si.count % 0x100000000))
  else none

/-- `SetScrollInfo` on one of the bars. -/
def Bar.setScrollInfo (bar : Bar) (lpsi : SCROLLINFO) (fMask : UInt32) : Option Bar :=
  match setScrollInfoByMask bar.info lpsi fMask with
  | (false, info) => some { bar with info }
  | (true, info) =>
    info.enabled.map fun bEnable =>
      if bEnable ≠ bar.style then
        { bar with
          info
          style := bEnable
          shown := bEnable }
      else { bar with info }

/-- `SetScrollInfo`, with what it returns. -/
def setScrollInfo (wnd : Window) (fnBar : UInt32) (lpsi : SCROLLINFO) (fMask : UInt32) :
    Option (Window × Bool) :=
  if fnBar = SB_VERT then
    (wnd.vert.setScrollInfo lpsi fMask).map fun vert => ({ wnd with vert }, true)
  else if fnBar = SB_HORZ then
    (wnd.horz.setScrollInfo lpsi fMask).map fun horz => ({ wnd with horz }, true)
  else some (wnd, false)

/-- A `SCROLLINFO` of which one field was set. -/
def blank : SCROLLINFO := ⟨0, 0, 0, 0, 0⟩

/-- `SetScrollPos` -/
def setScrollPos (wnd : Window) (nBar : UInt32) (nPos : Int32) : Option (Window × Bool) :=
  setScrollInfo wnd nBar { blank with nPos } SIF_POS

/-- `SetScrollRange` -/
def setScrollRange (wnd : Window) (nBar : UInt32) (nMinPos nMaxPos : Int32) :
    Option (Window × Bool) :=
  setScrollInfo wnd nBar { blank with nMin := nMinPos, nMax := nMaxPos } SIF_RANGE

/-- `ShowScrollBar` for one of the bars. -/
def Bar.show (bar : Bar) (wBar bit : UInt32) (bShow : Bool) : Bar :=
  if named wBar bit then
    { bar with
      shown := bShow
      exStyle := bShow }
  else bar

/-- `ShowScrollBar` -/
def showScrollBar (wnd : Window) (wBar : UInt32) (bShow : Bool) : Option (Window × Bool) :=
  some (⟨wnd.vert.show wBar SB_VERT bShow, wnd.horz.show wBar SB_HORZ bShow⟩, true)

/-- The calls. -/
inductive Call
  | setScrollInfo (fnBar : UInt32) (lpsi : SCROLLINFO) (fMask : UInt32)
  | setScrollPos (nBar : UInt32) (nPos : Int32)
  | setScrollRange (nBar : UInt32) (nMinPos nMaxPos : Int32)
  | showScrollBar (wBar : UInt32) (bShow : Bool)
  deriving DecidableEq

/-- A call leaves a window and returns a value, or its behaviour is undefined. -/
def Call.run (wnd : Window) : Call → Option (Window × Bool)
  | .setScrollInfo fnBar lpsi fMask => ScrollInfo.setScrollInfo wnd fnBar lpsi fMask
  | .setScrollPos nBar nPos => ScrollInfo.setScrollPos wnd nBar nPos
  | .setScrollRange nBar nMinPos nMaxPos => ScrollInfo.setScrollRange wnd nBar nMinPos nMaxPos
  | .showScrollBar wBar bShow => ScrollInfo.showScrollBar wnd wBar bShow

/-- The program; there is no window any more when its behaviour is undefined. -/
def lts : LTS (Option Window) Call :=
  ⟨fun wnd? call => wnd?.map fun wnd => (call.run wnd).map Prod.fst⟩

/-- The position is in the range, as far as the page leaves it. -/
def SCROLLINFO.Holds (si : SCROLLINFO) (pos : Int32) : Prop :=
  si.nMin.toInt ≤ pos.toInt ∧
    pos.toInt ≤ max si.nMin.toInt (si.nMax.toInt - si.nPage.toNat + 1)

/-- The range and the positions fit together. -/
structure SCROLLINFO.InRange (si : SCROLLINFO) : Prop where
  range : si.nMin.toInt ≤ si.nMax.toInt
  pos : si.Holds si.nPos
  trackPos : si.nTrackPos ≠ -1 → si.Holds si.nTrackPos

/-- The range fits the positions, and the two bits agree. -/
structure Bar.Sound (bar : Bar) : Prop where
  inRange : bar.info.InRange
  agree : bar.style = bar.shown

/-- **Both bars are sound.** -/
structure Window.Sound (wnd : Window) : Prop where
  vert : wnd.vert.Sound
  horz : wnd.horz.Sound

/-- A page of nothing, or a range that ends before it begins, is not accepted. -/
def Rejects (lpsi : SCROLLINFO) (fMask : UInt32) : Prop :=
  named fMask SIF_PAGE ∧ lpsi.nPage ≤ 0 ∨ named fMask SIF_RANGE ∧ lpsi.nMax < lpsi.nMin

/-- The bar that a call names. -/
def Window.bar (wnd : Window) (fnBar : UInt32) : Option Bar :=
  if fnBar = SB_VERT then some wnd.vert else if fnBar = SB_HORZ then some wnd.horz else none

/-- The fields that a call sets. -/
def Call.request : Call → Option (UInt32 × SCROLLINFO × UInt32)
  | .setScrollInfo fnBar lpsi fMask => some (fnBar, lpsi, fMask)
  | .setScrollPos nBar nPos => some (nBar, { blank with nPos }, SIF_POS)
  | .setScrollRange nBar nMinPos nMaxPos =>
    some (nBar, { blank with nMin := nMinPos, nMax := nMaxPos }, SIF_RANGE)
  | .showScrollBar _ _ => none

/-- **A correct call**: it leaves both bars sound; what is not accepted fails and changes nothing,
and what is accepted shows the bar if and only if there are more positions than the page has. -/
def Correct (wnd : Window) (call : Call) : Prop :=
  ∃ wnd' ret, call.run wnd = some (wnd', ret) ∧ wnd'.Sound ∧
    ∀ fnBar lpsi fMask, call.request = some (fnBar, lpsi, fMask) →
      ∀ bar' ∈ wnd'.bar fnBar,
        (Rejects lpsi fMask → ret = false ∧ wnd' = wnd) ∧
        (¬ Rejects lpsi fMask →
          (bar'.style = true ↔ (bar'.info.nPage.toNat : ℤ) < bar'.info.count))

/-- A bar as the property has it at the beginning. -/
structure Bar.Usable (bar : Bar) : Prop where
  range : bar.info.nMin.toInt ≤ bar.info.nMax.toInt
  page : 1 ≤ bar.info.nPage.toNat

/-- The range of both bars is one, and their page is not empty. -/
structure Window.Usable (wnd : Window) : Prop where
  vert : wnd.vert.Usable
  horz : wnd.horz.Usable

/-- The bar that a call sets, if it sets one, is usable; the other one need not be. -/
def Window.UsableFor (wnd : Window) (call : Call) : Prop :=
  ∀ fnBar lpsi fMask, call.request = some (fnBar, lpsi, fMask) → ∀ bar ∈ wnd.bar fnBar, bar.Usable

/-- What is usable in one window is so in the other. -/
structure Window.Keeps (wnd wnd' : Window) : Prop where
  vert : wnd.vert.Usable → wnd'.vert.Usable
  horz : wnd.horz.Usable → wnd'.horz.Usable

/-- The limit of the position is no `int`. -/
def SCROLLINFO.Wraps (si : SCROLLINFO) : Prop :=
  si.nMax.toInt - si.nPage.toNat + 1 < -0x80000000

/-- What a call sets leaves the bar sound: it is accepted, the positions can be counted, where the
limit wraps around the positions are at the beginning already, and where the bar stays as it is the
bits agree before. -/
structure Bar.Settles (bar : Bar) (lpsi : SCROLLINFO) (fMask : UInt32) : Prop where
  accepted : ¬ Rejects lpsi fMask
  counted : (bar.info.merged lpsi fMask).count ≤ 0x7FFFFFFF
  pos : (bar.info.merged lpsi fMask).Wraps →
    (bar.info.merged lpsi fMask).nPos ≤ (bar.info.merged lpsi fMask).nMin
  trackPos : (bar.info.merged lpsi fMask).Wraps → (bar.info.merged lpsi fMask).nTrackPos ≠ -1 →
    (bar.info.merged lpsi fMask).nTrackPos ≤ (bar.info.merged lpsi fMask).nMin ∨
      (bar.info.merged lpsi fMask).posMax = -1 ∧ -1 < (bar.info.merged lpsi fMask).nTrackPos
  agree : (bar.style = true ↔
      ((bar.info.merged lpsi fMask).nPage.toNat : ℤ) < (bar.info.merged lpsi fMask).count) →
    bar.style = bar.shown

/-- A bar is sound after it is shown or hidden. -/
structure Bar.Shows (bar : Bar) (wBar bit : UInt32) (bShow : Bool) : Prop where
  inRange : bar.info.InRange
  agree : bar.style = if named wBar bit then bShow else bar.shown

/-- **The calls that are correct.** -/
def Orderly (wnd : Window) (call : Call) : Prop :=
  match call.request, call with
  | some (fnBar, lpsi, fMask), _ =>
    if fnBar = SB_VERT then wnd.vert.Settles lpsi fMask ∧ wnd.horz.Sound
    else if fnBar = SB_HORZ then wnd.horz.Settles lpsi fMask ∧ wnd.vert.Sound
    else wnd.Sound
  | none, .showScrollBar wBar bShow =>
    wnd.vert.Shows wBar SB_VERT bShow ∧ wnd.horz.Shows wBar SB_HORZ bShow
  | none, _ => True

theorem toInt_posMax (si : SCROLLINFO) :
    si.posMax.toInt = Int.bmod (si.nMax.toInt - si.nPage.toNat + 1) 4294967296 := by
  have hmax : si.nMax.toUInt32.toBitVec.toInt = si.nMax.toInt := rfl
  have hpage : si.nPage.toBitVec.toInt = Int.bmod si.nPage.toNat 4294967296 := by
    rw [BitVec.toInt_eq_toNat_bmod]
    rfl
  rw [SCROLLINFO.posMax, ← Int32.toInt_toBitVec]
  simp only [UInt32.toBitVec_toInt32, UInt32.toBitVec_add, UInt32.toBitVec_sub, BitVec.toInt_add,
    BitVec.toInt_sub, hmax, hpage, Int.bmod_add_bmod]
  rw [show (UInt32.toBitVec 1).toInt = 1 from rfl,
    show ∀ a b : ℤ, a - b + 1 = a + 1 - b by intros; omega, Int.sub_bmod_bmod]
  congr 1
  omega

theorem SCROLLINFO.page_lt (si : SCROLLINFO) : (si.nPage.toNat : ℤ) < 4294967296 := by
  have := si.nPage.toNat_lt
  omega

theorem toInt_posMax_of_not_wraps {si : SCROLLINFO} (hpage : 1 ≤ si.nPage.toNat)
    (h : ¬ si.Wraps) : si.posMax.toInt = si.nMax.toInt - si.nPage.toNat + 1 := by
  have hlt := si.nMax.toInt_lt
  unfold SCROLLINFO.Wraps at h
  rw [toInt_posMax]
  exact Int.bmod_eq_of_le (by omega) (by omega)

theorem toInt_posMax_of_wraps {si : SCROLLINFO} (h : si.Wraps) :
    si.posMax.toInt = si.nMax.toInt - si.nPage.toNat + 1 + 4294967296 := by
  have hle := si.nMax.le_toInt
  have hpage := si.page_lt
  unfold SCROLLINFO.Wraps at h
  rw [toInt_posMax, ← Int.add_bmod_right]
  exact Int.bmod_eq_of_le (by omega) (by omega)

theorem toInt_clamp (nMin posMax pos : Int32) :
    (clamp nMin posMax pos).toInt =
      max nMin.toInt (min (max nMin.toInt pos.toInt) posMax.toInt) := by
  unfold clamp
  simp only [Int32.lt_iff_toInt_lt]
  split_ifs <;> omega

/-- A position is in the range afterwards, unless the limit wraps around. -/
theorem holds_clamp {si : SCROLLINFO} (hpage : 1 ≤ si.nPage.toNat)
    (hrange : si.nMin.toInt ≤ si.nMax.toInt) (pos : Int32) :
    si.Holds (clamp si.nMin si.posMax pos) ↔ (si.Wraps → pos ≤ si.nMin) := by
  have hle := si.nMin.le_toInt
  rw [SCROLLINFO.Holds, toInt_clamp, Int32.le_iff_toInt_le]
  by_cases h : si.Wraps
  · have hlimit := toInt_posMax_of_wraps h
    have hlt := si.page_lt
    simp only [h, true_imp_iff, hlimit]
    unfold SCROLLINFO.Wraps at h
    omega
  · have hlimit := toInt_posMax_of_not_wraps hpage h
    simp only [h, false_imp_iff, iff_true, hlimit]
    omega

/-- The position of the thumb becomes the mark for none only with the limit. -/
theorem clamp_eq_neg_one {si : SCROLLINFO} (hrange : si.nMin.toInt ≤ si.nMax.toInt)
    (h : si.Wraps) {pos : Int32} (hpos : pos ≠ -1) (hmin : ¬ pos ≤ si.nMin) :
    clamp si.nMin si.posMax pos = -1 ↔ si.posMax = -1 ∧ -1 < pos := by
  have hlimit := toInt_posMax_of_wraps h
  have hlt := si.page_lt
  have hone : (-1 : Int32).toInt = -1 := rfl
  rw [ne_eq, ← Int32.toInt_inj, hone] at hpos
  rw [Int32.le_iff_toInt_le] at hmin
  rw [← Int32.toInt_inj, toInt_clamp, ← Int32.toInt_inj, Int32.lt_iff_toInt_lt, hone, hlimit]
  omega

theorem inRange_clamped {si : SCROLLINFO} (hpage : 1 ≤ si.nPage.toNat)
    (hrange : si.nMin.toInt ≤ si.nMax.toInt) :
    si.clamped.InRange ↔ (si.Wraps → si.nPos ≤ si.nMin) ∧
      (si.Wraps → si.nTrackPos ≠ -1 →
        si.nTrackPos ≤ si.nMin ∨ si.posMax = -1 ∧ -1 < si.nTrackPos) := by
  have htrack : (si.clamped.nTrackPos ≠ -1 → si.Holds si.clamped.nTrackPos) ↔
      (si.Wraps → si.nTrackPos ≠ -1 →
        si.nTrackPos ≤ si.nMin ∨ si.posMax = -1 ∧ -1 < si.nTrackPos) := by
    show (ite (si.nTrackPos ≠ -1) (clamp si.nMin si.posMax si.nTrackPos) si.nTrackPos ≠ -1 →
      si.Holds (ite (si.nTrackPos ≠ -1) (clamp si.nMin si.posMax si.nTrackPos) si.nTrackPos)) ↔ _
    by_cases hne : si.nTrackPos ≠ -1
    · rw [if_pos hne, holds_clamp hpage hrange]
      by_cases hw : si.Wraps
      · by_cases hmin : si.nTrackPos ≤ si.nMin
        · simp only [hmin, true_or, imp_true_iff]
        · rw [← clamp_eq_neg_one hrange hw hne hmin]
          constructor
          · exact fun h _ _ => .inr (not_not.1 fun hc => hmin (h hc hw))
          · exact fun h hc _ => (h hw hne).resolve_right hc
      · simp only [hw, false_imp_iff, imp_true_iff]
    · rw [if_neg hne]
      exact ⟨fun _ _ h => absurd h hne, fun _ h => absurd h hne⟩
  constructor
  · rintro ⟨-, hpos, htr⟩
    exact ⟨(holds_clamp hpage hrange _).1 hpos, htrack.1 htr⟩
  · rintro ⟨hpos, htr⟩
    exact ⟨hrange, (holds_clamp hpage hrange _).2 hpos, htrack.2 htr⟩

/-! ### One bar -/

theorem not_rejects_iff {lpsi : SCROLLINFO} {fMask : UInt32} :
    ¬ Rejects lpsi fMask ↔ ¬ (named fMask SIF_PAGE ∧ lpsi.nPage ≤ 0) ∧
      ¬ (named fMask SIF_RANGE ∧ lpsi.nMax < lpsi.nMin) :=
  not_or

/-- What is accepted leaves a range and a page that is not empty. -/
theorem Bar.Usable.merged {bar : Bar} (h : bar.Usable) {lpsi : SCROLLINFO} {fMask : UInt32}
    (hacc : ¬ Rejects lpsi fMask) :
    (bar.info.merged lpsi fMask).nMin.toInt ≤ (bar.info.merged lpsi fMask).nMax.toInt ∧
      1 ≤ (bar.info.merged lpsi fMask).nPage.toNat := by
  obtain ⟨hpage, hrange⟩ := not_rejects_iff.1 hacc
  simp only [SCROLLINFO.merged, SCROLLINFO.written]
  constructor
  · by_cases hn : named fMask SIF_RANGE = true
    · rw [if_pos hn, if_pos hn, ← Int32.le_iff_toInt_le]
      exact Int32.not_lt.1 fun hlt => hrange ⟨hn, hlt⟩
    · rw [if_neg hn, if_neg hn]
      exact h.range
  · by_cases hn : named fMask SIF_PAGE = true
    · rw [if_pos hn]
      exact Nat.pos_of_ne_zero fun hz => hpage ⟨hn, by rw [UInt32.le_iff_toNat_le, hz]; rfl⟩
    · rw [if_neg hn]
      exact h.page

theorem Bar.setScrollInfo_of_accepted {bar : Bar} {lpsi : SCROLLINFO} {fMask : UInt32}
    (hacc : ¬ Rejects lpsi fMask) :
    bar.setScrollInfo lpsi fMask =
      (bar.info.merged lpsi fMask).clamped.enabled.map fun bEnable =>
        if bEnable ≠ bar.style then
          { bar with
            info := (bar.info.merged lpsi fMask).clamped
            style := bEnable
            shown := bEnable }
        else { bar with info := (bar.info.merged lpsi fMask).clamped } := by
  obtain ⟨hpage, hrange⟩ := not_rejects_iff.1 hacc
  rw [Bar.setScrollInfo, setScrollInfoByMask, if_neg hpage, if_neg hrange]

theorem enabled_clamped {si : SCROLLINFO} (hrange : si.nMin.toInt ≤ si.nMax.toInt)
    (hcount : si.count ≤ 0x7FFFFFFF) :
    si.clamped.enabled = some (decide ((si.nPage.toNat : ℤ) < si.count)) := by
  have hpos : 1 ≤ si.count := by
    unfold SCROLLINFO.count
    omega
  show (if -0x80000000 ≤ si.count - 1 ∧ si.count - 1 ≤ 0x7FFFFFFF ∧ si.count ≤ 0x7FFFFFFF then
    some (decide ((si.nPage.toNat : ℤ) < si.count % 0x100000000)) else none) = _
  rw [if_pos ⟨by omega, by omega, hcount⟩, Int.emod_eq_of_lt (by omega) (by omega)]

theorem enabled_clamped_of_lt {si : SCROLLINFO} (hcount : ¬ si.count ≤ 0x7FFFFFFF) :
    si.clamped.enabled = none :=
  if_neg fun h => hcount h.2.2

/-- **What `SetScrollInfo` leaves of a bar.** -/
theorem Bar.Usable.setScrollInfo_iff {bar : Bar} (h : bar.Usable) {lpsi : SCROLLINFO}
    {fMask : UInt32} (hacc : ¬ Rejects lpsi fMask) :
    (∃ bar', bar.setScrollInfo lpsi fMask = some bar' ∧ bar'.Sound) ↔
      bar.Settles lpsi fMask := by
  obtain ⟨hrange, hpage⟩ := h.merged hacc
  rw [Bar.setScrollInfo_of_accepted hacc]
  by_cases hcount : (bar.info.merged lpsi fMask).count ≤ 0x7FFFFFFF
  · rw [enabled_clamped hrange hcount, Option.map_some]
    generalize hsi : bar.info.merged lpsi fMask = si at hrange hpage hcount
    simp only [Option.some.injEq, exists_eq_left']
    have hsound : ∀ style exStyle shown, Bar.Sound ⟨si.clamped, style, exStyle, shown⟩ ↔
        si.clamped.InRange ∧ style = shown :=
      fun _ _ _ => ⟨fun h => ⟨h.1, h.2⟩, fun h => ⟨h.1, h.2⟩⟩
    have hsettles : bar.Settles lpsi fMask ↔ si.clamped.InRange ∧
        ((bar.style = true ↔ (si.nPage.toNat : ℤ) < si.count) → bar.style = bar.shown) := by
      rw [inRange_clamped hpage hrange]
      exact ⟨fun h => ⟨⟨hsi ▸ h.pos, hsi ▸ h.trackPos⟩, hsi ▸ h.agree⟩, fun h =>
        ⟨hacc, hsi ▸ hcount, hsi ▸ h.1.1, hsi ▸ h.1.2, hsi ▸ h.2⟩⟩
    rw [hsettles]
    by_cases hstyle : decide ((si.nPage.toNat : ℤ) < si.count) = bar.style
    · rw [if_neg (not_not.2 hstyle), hsound]
      refine and_congr_right fun _ => ⟨fun hs _ => hs, fun hs => hs ?_⟩
      rw [← hstyle, decide_eq_true_iff]
    · rw [if_pos hstyle, hsound]
      refine and_congr_right fun _ => iff_of_true rfl fun hs => absurd ?_ hstyle
      rw [Bool.eq_iff_iff, decide_eq_true_iff]
      exact hs.symm
  · rw [enabled_clamped_of_lt hcount]
    exact iff_of_false (by simp) fun hs => hcount hs.counted

/-- The bar is there afterwards if the positions are more than the page has. -/
theorem Bar.Usable.setScrollInfo_style {bar bar' : Bar} (h : bar.Usable) {lpsi : SCROLLINFO}
    {fMask : UInt32} (hacc : ¬ Rejects lpsi fMask)
    (hset : bar.setScrollInfo lpsi fMask = some bar') :
    bar'.style = true ↔ (bar'.info.nPage.toNat : ℤ) < bar'.info.count := by
  obtain ⟨hrange, -⟩ := h.merged hacc
  rw [Bar.setScrollInfo_of_accepted hacc] at hset
  by_cases hcount : (bar.info.merged lpsi fMask).count ≤ 0x7FFFFFFF
  · rw [enabled_clamped hrange hcount, Option.map_some, Option.some.injEq] at hset
    have hcount' : (bar.info.merged lpsi fMask).clamped.count =
        (bar.info.merged lpsi fMask).count := rfl
    have hpage' : (bar.info.merged lpsi fMask).clamped.nPage =
        (bar.info.merged lpsi fMask).nPage := rfl
    split_ifs at hset with hstyle
    · rw [← hset, hcount', hpage', decide_eq_true_iff]
    · rw [← hset, hcount', hpage', ← not_not.1 hstyle, decide_eq_true_iff]
  · rw [enabled_clamped_of_lt hcount] at hset
    cases hset

theorem Bar.Usable.setScrollInfo {bar bar' : Bar} (h : bar.Usable) {lpsi : SCROLLINFO}
    {fMask : UInt32} (hset : bar.setScrollInfo lpsi fMask = some bar') : bar'.Usable := by
  by_cases hacc : Rejects lpsi fMask
  · unfold Bar.setScrollInfo setScrollInfoByMask at hset
    by_cases hpage : (named fMask SIF_PAGE = true) ∧ lpsi.nPage ≤ 0
    · rw [if_pos hpage, Option.some.injEq] at hset
      exact hset ▸ ⟨h.range, h.page⟩
    · rw [if_neg hpage, if_pos (hacc.resolve_left hpage), Option.some.injEq] at hset
      refine hset ▸ ⟨h.range, ?_⟩
      show 1 ≤ (ite (named fMask SIF_PAGE = true) lpsi.nPage bar.info.nPage).toNat
      split_ifs with hn
      · exact Nat.pos_of_ne_zero fun hz => hpage ⟨hn, by rw [UInt32.le_iff_toNat_le, hz]; rfl⟩
      · exact h.page
  · have hmerged := h.merged hacc
    rw [Bar.setScrollInfo_of_accepted hacc, Option.map_eq_some_iff] at hset
    obtain ⟨bEnable, -, rfl⟩ := hset
    split_ifs
    · exact ⟨hmerged.1, hmerged.2⟩
    · exact ⟨hmerged.1, hmerged.2⟩

theorem Bar.show_sound {bar : Bar} {wBar bit : UInt32} {bShow : Bool} :
    (bar.show wBar bit bShow).Sound ↔ bar.Shows wBar bit bShow := by
  unfold Bar.show
  by_cases hn : named wBar bit = true
  · rw [if_pos hn]
    exact ⟨fun h => ⟨h.1, h.2.trans (if_pos hn).symm⟩, fun h => ⟨h.1, h.2.trans (if_pos hn)⟩⟩
  · rw [if_neg hn]
    exact ⟨fun h => ⟨h.1, h.2.trans (if_neg hn).symm⟩, fun h => ⟨h.1, h.2.trans (if_neg hn)⟩⟩

theorem Bar.Usable.show {bar : Bar} (h : bar.Usable) (wBar bit : UInt32) (bShow : Bool) :
    (bar.show wBar bit bShow).Usable := by
  unfold Bar.show
  split_ifs
  · exact ⟨h.range, h.page⟩
  · exact h

/-! ### A call -/

section Set

variable {wnd : Window} {call : Call} {fnBar : UInt32} {lpsi : SCROLLINFO} {fMask : UInt32}

/-- What is set on one bar is correct if the bar settles and the other bar is sound. -/
theorem correct_bar {bar other : Bar} {put : Bar → Window} (h : bar.Usable)
    (hreq : call.request = some (fnBar, lpsi, fMask))
    (hrun : call.run wnd = (bar.setScrollInfo lpsi fMask).map fun bar' => (put bar', true))
    (hput : ∀ bar', (put bar').bar fnBar = some bar')
    (hsound : ∀ bar', (put bar').Sound ↔ bar'.Sound ∧ other.Sound) :
    Correct wnd call ↔ bar.Settles lpsi fMask ∧ other.Sound := by
  constructor
  · rintro ⟨wnd', ret, hset, hs, hcall⟩
    rw [hrun, Option.map_eq_some_iff] at hset
    obtain ⟨bar', hbar, heq⟩ := hset
    obtain ⟨rfl, rfl⟩ := Prod.mk.inj heq
    have hacc : ¬ Rejects lpsi fMask := fun hrej =>
      absurd ((hcall _ _ _ hreq bar' (hput bar')).1 hrej).1 (by decide)
    obtain ⟨hs, hother⟩ := (hsound bar').1 hs
    exact ⟨(h.setScrollInfo_iff hacc).1 ⟨bar', hbar, hs⟩, hother⟩
  · rintro ⟨hsettles, hother⟩
    obtain ⟨bar', hbar, hs⟩ := (h.setScrollInfo_iff hsettles.accepted).2 hsettles
    refine ⟨put bar', true, by rw [hrun, hbar]; rfl, (hsound bar').2 ⟨hs, hother⟩, ?_⟩
    intro fnBar' lpsi' fMask' hreq' bar'' hbar''
    obtain ⟨rfl, rfl, rfl⟩ : fnBar = fnBar' ∧ lpsi = lpsi' ∧ fMask = fMask' := by
      simpa using hreq.symm.trans hreq'
    obtain rfl : bar' = bar'' := Option.some.inj ((hput bar').symm.trans hbar'')
    exact ⟨fun hrej => absurd hrej hsettles.accepted, fun hacc => h.setScrollInfo_style hacc hbar⟩

theorem correct_set (h : wnd.UsableFor call) (hreq : call.request = some (fnBar, lpsi, fMask))
    (hrun : call.run wnd = setScrollInfo wnd fnBar lpsi fMask) :
    Correct wnd call ↔ Orderly wnd call := by
  simp only [Orderly, hreq]
  unfold setScrollInfo at hrun
  by_cases hvert : fnBar = SB_VERT
  · rw [if_pos hvert] at hrun ⊢
    exact correct_bar (h _ _ _ hreq _ (if_pos hvert)) hreq hrun (fun _ => if_pos hvert)
      fun _ => ⟨fun hs => ⟨hs.vert, hs.horz⟩, fun hs => ⟨hs.1, hs.2⟩⟩
  by_cases hhorz : fnBar = SB_HORZ
  · rw [if_neg hvert, if_pos hhorz] at hrun ⊢
    have husable := h _ _ _ hreq wnd.horz ((if_neg hvert).trans (if_pos hhorz))
    exact correct_bar husable hreq hrun (fun _ => (if_neg hvert).trans (if_pos hhorz))
      fun _ => ⟨fun hs => ⟨hs.horz, hs.vert⟩, fun hs => ⟨hs.2, hs.1⟩⟩
  · rw [if_neg hvert, if_neg hhorz] at hrun ⊢
    constructor
    · rintro ⟨wnd', ret, hset, hs, -⟩
      rw [hrun] at hset
      cases hset
      exact hs
    · refine fun hs => ⟨wnd, false, hrun, hs, fun fnBar' lpsi' fMask' hreq' bar' hbar' => ?_⟩
      obtain ⟨rfl, -⟩ : fnBar = fnBar' ∧ _ := by simpa using hreq.symm.trans hreq'
      rw [Window.bar, if_neg hvert, if_neg hhorz] at hbar'
      cases hbar'

end Set

/-- **A call is correct if and only if it is orderly.** -/
theorem correct_iff {wnd : Window} (call : Call) (h : wnd.UsableFor call) :
    Correct wnd call ↔ Orderly wnd call := by
  cases call with
  | setScrollInfo fnBar lpsi fMask => exact correct_set h rfl rfl
  | setScrollPos nBar nPos => exact correct_set h rfl rfl
  | setScrollRange nBar nMinPos nMaxPos => exact correct_set h rfl rfl
  | showScrollBar wBar bShow =>
    constructor
    · rintro ⟨wnd', ret, hrun, hs, -⟩
      cases hrun
      exact ⟨Bar.show_sound.1 hs.vert, Bar.show_sound.1 hs.horz⟩
    · rintro ⟨hvert, hhorz⟩
      exact ⟨_, true, rfl, ⟨Bar.show_sound.2 hvert, Bar.show_sound.2 hhorz⟩, nofun⟩

theorem keeps_set {wnd wnd' : Window} {fnBar : UInt32} {lpsi : SCROLLINFO} {fMask : UInt32}
    {ret : Bool} (hset : setScrollInfo wnd fnBar lpsi fMask = some (wnd', ret)) :
    wnd.Keeps wnd' := by
  unfold setScrollInfo at hset
  split_ifs at hset
  · obtain ⟨vert, hvert, heq⟩ := Option.map_eq_some_iff.1 hset
    obtain ⟨rfl, -⟩ := Prod.mk.inj heq
    exact ⟨fun h => h.setScrollInfo hvert, id⟩
  · obtain ⟨horz, hhorz, heq⟩ := Option.map_eq_some_iff.1 hset
    obtain ⟨rfl, -⟩ := Prod.mk.inj heq
    exact ⟨id, fun h => h.setScrollInfo hhorz⟩
  · cases hset
    exact ⟨id, id⟩

/-- Each call keeps both bars usable, if they are. -/
theorem keeps_run {wnd wnd' : Window} {call : Call} {ret : Bool}
    (hrun : call.run wnd = some (wnd', ret)) : wnd.Keeps wnd' := by
  cases call with
  | setScrollInfo fnBar lpsi fMask => exact keeps_set hrun
  | setScrollPos nBar nPos => exact keeps_set hrun
  | setScrollRange nBar nMinPos nMaxPos => exact keeps_set hrun
  | showScrollBar wBar bShow =>
    cases hrun
    exact ⟨fun h => h.show _ _ _, fun h => h.show _ _ _⟩

theorem Window.Keeps.usableFor {wnd wnd' : Window} (h : wnd.Keeps wnd') {call : Call}
    (husable : wnd.UsableFor call) : wnd'.UsableFor call := by
  intro fnBar lpsi fMask hreq bar hbar
  have hnamed := husable fnBar lpsi fMask hreq
  unfold Window.bar at hbar hnamed
  split_ifs at hbar hnamed
  · exact Option.some.inj hbar ▸ h.vert (hnamed _ rfl)
  · exact Option.some.inj hbar ▸ h.horz (hnamed _ rfl)
  · cases hbar

theorem usableFor_next {wnd? wnd?' : Option Window} {call call' : Call}
    (h : ∀ wnd ∈ wnd?, wnd.UsableFor call') (hn : lts.next wnd? call = some wnd?') :
    ∀ wnd ∈ wnd?', wnd.UsableFor call' := by
  obtain ⟨wnd, rfl, rfl⟩ := Option.map_eq_some_iff.1 hn
  intro wnd' hwnd'
  obtain ⟨⟨wnd'', ret⟩, hrun, rfl⟩ := Option.map_eq_some_iff.1 hwnd'
  exact (keeps_run hrun).usableFor (h wnd rfl)

/-- **The calls of a run are all correct if and only if they are orderly**, if each bar that one of
them sets is usable at the beginning. -/
theorem scrollCalls_iff {wnd : Window} (calls : List Call)
    (h : ∀ call ∈ calls, wnd.UsableFor call) :
    lts.AllSteps (fun wnd? call => ∀ wnd ∈ wnd?, Correct wnd call) (some wnd) calls ↔
      lts.AllSteps (fun wnd? call => ∀ wnd ∈ wnd?, Orderly wnd call) (some wnd) calls := by
  have hrun : ∀ wnd? : Option Window, (∀ call ∈ calls, ∀ wnd ∈ wnd?, wnd.UsableFor call) →
      (lts.AllSteps (fun wnd? call => ∀ wnd ∈ wnd?, Correct wnd call) wnd? calls ↔
        lts.AllSteps (fun wnd? call => ∀ wnd ∈ wnd?, Orderly wnd call) wnd? calls) := by
    clear h
    induction calls with
    | nil => exact fun _ _ => Iff.rfl
    | cons call calls ih =>
      intro wnd? husable
      refine forall_congr' fun wnd?' => forall_congr' fun hn => and_congr ?_ ?_
      · exact forall_congr' fun wnd => forall_congr' fun hwnd =>
          correct_iff call (husable call List.mem_cons_self wnd hwnd)
      · exact ih wnd?' fun call' hcall' =>
          usableFor_next (husable call' (List.mem_cons_of_mem call hcall')) hn
  exact hrun (some wnd) fun call hcall wnd' hwnd => Option.some.inj hwnd ▸ h call hcall

/-- A bar with the positions 0 to 100 and a page of 10 of them. -/
def sampleBar : Bar := ⟨⟨0, 100, 10, 0, -1⟩, true, false, true⟩

/-- The horizontal bar is as `ScrollBar()` makes it, with the page 0. -/
def sampleWindow : Window := ⟨sampleBar, ⟨⟨0, 0, 0, 0, -1⟩, false, false, false⟩⟩

theorem sampleBar_usable : sampleBar.Usable := ⟨by decide, by decide⟩

/-- The whole range becomes one page, and the vertical bar disappears. -/
theorem scrollCalls_hide : lts.AllSteps (fun wnd? call => ∀ wnd ∈ wnd?, Correct wnd call)
    (some sampleWindow) [.setScrollInfo SB_VERT ⟨0, 0, 101, 0, 0⟩ SIF_PAGE] := by
  refine (scrollCalls_iff _ fun call hcall => ?_).2 fun wnd? _ => ⟨fun wnd hwnd => ?_, trivial⟩
  · obtain rfl := List.mem_singleton.1 hcall
    intro fnBar lpsi fMask hreq bar hbar
    obtain ⟨rfl, -⟩ : SB_VERT = fnBar ∧ _ := by simpa [Call.request] using hreq
    exact Option.some.inj hbar ▸ sampleBar_usable
  · obtain rfl := Option.some.inj hwnd
    have hother : sampleWindow.horz.Sound :=
      ⟨⟨by decide, by unfold SCROLLINFO.Holds; decide, fun h => absurd rfl h⟩, rfl⟩
    refine ⟨⟨?_, by decide, ?_, ?_, ?_⟩, hother⟩
    · unfold Rejects
      decide
    · unfold SCROLLINFO.Wraps
      decide
    · unfold SCROLLINFO.Wraps
      decide
    · decide

/-- A page and a range that ends before it begins: the page is changed, and the call succeeds. -/
theorem rejected_changes : ¬ ∀ wnd : Window, wnd.Usable → ∀ calls, lts.AllSteps
    (fun wnd? call => ∀ wnd ∈ wnd?, Correct wnd call) (some wnd) calls := by
  intro h
  have hcorrect := (h ⟨sampleBar, sampleBar⟩ ⟨sampleBar_usable, sampleBar_usable⟩
    [.setScrollInfo SB_VERT ⟨10, 5, 20, 0, 0⟩ (SIF_PAGE ||| SIF_RANGE)] _ rfl).1 _ rfl
  obtain ⟨wnd', ret, hrun, -, hcall⟩ := hcorrect
  cases hrun
  have hrejects : Rejects ⟨10, 5, 20, 0, 0⟩ (SIF_PAGE ||| SIF_RANGE) := .inr (by decide)
  exact absurd ((hcall _ _ _ rfl _ rfl).1 hrejects).1 (by decide)

end ScrollInfo

end Swinx
