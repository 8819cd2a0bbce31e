import Swinx.Data.OrderedTree
import Mathlib.Data.List.Induction
import Mathlib.Data.Nat.Init
import Mathlib.Tactic.SplitIfs

/-!
# Menu items

A `CMenu` has a list of items, and an item may have a sub-menu, so a menu is an ordered tree.
`InsertMenu` puts an item in before it looks at the sub-menu, and by a position in range it puts it
at the front.  `DeleteMenu` looks for an id in this
menu only, and `RemoveMenu` takes the place of what `FindItem` finds for a place in this menu.

The sub-menu of a new item is a menu of its own that is not in the tree.  Left out are what is drawn
and the pointers to the menus above.

* `calls_refine_iff` — a call refines the ordered tree if and only if it acts so.
-/

namespace Swinx

namespace Menu

open OrderedTree

def MF_BITMAP : UInt32 := 0x004

def MF_POPUP : UInt32 := 0x010

def MF_OWNERDRAW : UInt32 := 0x100

def MF_BYPOSITION : UInt32 := 0x400

/-- `(UINT)-1` -/
def UINT_MAX : UInt32 := 0xFFFFFFFF

/-- A pointer with the string that stands there. -/
structure Str where
  ptr : ℕ
  text : List UInt8
  deriving DecidableEq, Repr

/-- `SMenuItem`; a sub-menu is known by its window. -/
structure SMenuItem where
  m_uMenuFlag : UInt32
  m_id : UInt32
  m_data : Option ℕ
  m_strTitle : List UInt8
  m_pSubMenu : Option UInt64
  deriving DecidableEq, Repr

/-- `m_lsMenuItem`, with the items of the sub-menus. -/
abbrev Items := Forest SMenuItem

/-- What the handle of a popup stands for. -/
structure Windows where
  isWindow : UInt64 → Bool
  /-- The menu that the window points at, if it is one. -/
  menuOf : UInt64 → Option Items

/-! ### Finding an item -/

/-- The first item of this menu with the id. -/
def findHere (items : Items) (id : UInt32) : Option ℕ :=
  items.findIdx? fun n => decide (n.label.m_id = id)

mutual

/-- `FindItem` of the sub-menu of the item at the place `i`. -/
def findIn (id : UInt32) (i : ℕ) : Node SMenuItem → Option (List ℕ × ℕ)
  | .mk item items =>
    if item.m_pSubMenu.isSome then
      match findHere items id with
      | some k => some ([i], k)
      | none => (findBelow id 0 items).map fun q => (i :: q.1, q.2)
    else none

/-- The second loop of `FindItem`, from the place `i` on. -/
def findBelow (id : UInt32) (i : ℕ) : List (Node SMenuItem) → Option (List ℕ × ℕ)
  | [] => none
  | n :: items =>
    match findIn id i n with
    | some q => some q
    | none => findBelow id (i + 1) items

end

/-- `FindItem`: the path of the menu of the item, and its place there. -/
def FindItem (items : Items) (id : UInt32) : Option (List ℕ × ℕ) :=
  match findHere items id with
  | some k => some ([], k)
  | none => findBelow id 0 items

/-- `FindItem` with flags. -/
def FindItemBy (items : Items) (uPos uFlag : UInt32) : Option (List ℕ × ℕ) :=
  if uFlag &&& MF_BYPOSITION ≠ 0 then
    if uPos.toNat < items.length then some ([], uPos.toNat) else none
  else FindItem items uPos

/-- Where `InsertMenu` puts the item. -/
def insertPlace (items : Items) (uPos uFlag : UInt32) : ℕ :=
  if uFlag &&& MF_BYPOSITION ≠ 0 then
    if uPos.toNat ≥ items.length then items.length
    -- The iterator is not moved on from `begin()`.
    else 0
  else (findHere items uPos).getD items.length

/-- The item that `InsertMenu` puts in, and `SetMenuFlag`. -/
def newItem (uFlag : UInt32) (uIDNewItem : UInt64) (lpNewItem : Option Str) : SMenuItem where
  m_uMenuFlag := uFlag &&& ~~~MF_BYPOSITION
  m_id := uIDNewItem.toUInt32
  m_data := if (MF_BITMAP ||| MF_OWNERDRAW) &&& uFlag ≠ 0 then lpNewItem.map Str.ptr else none
  m_strTitle :=
    if (MF_BITMAP ||| MF_OWNERDRAW) &&& uFlag ≠ 0 then [] else (lpNewItem.map Str.text).getD []
  m_pSubMenu := none

variable (w : Windows)

/-- `InsertMenu` -/
def InsertMenu (items : Items) (uPos uFlag : UInt32) (uIDNewItem : UInt64)
    (lpNewItem : Option Str) : Bool × Items :=
  let place := insertPlace items uPos uFlag
  let item := newItem uFlag uIDNewItem lpNewItem
  if uFlag &&& MF_POPUP ≠ 0 then
    if w.isWindow uIDNewItem = false then (false, items.insertIdx place (.mk item []))
    else
      match w.menuOf uIDNewItem with
      | some menu =>
        (true, items.insertIdx place (.mk { item with m_pSubMenu := some uIDNewItem } menu))
      | none => (true, items.insertIdx place (.mk item []))
  else (true, items.insertIdx place (.mk item []))

/-- An `int` as a `UINT_PTR`. -/
def signExtend (n : UInt32) : UInt64 :=
  if n < 0x80000000 then n.toUInt64 else n.toUInt64 ||| 0xFFFFFFFF00000000

/-- `AppendMenu` -/
def AppendMenu (items : Items) (uFlags uIDNewItem : UInt32) (lpNewItem : Option Str) :
    Bool × Items :=
  InsertMenu w items UINT_MAX (uFlags ||| MF_BYPOSITION) (signExtend uIDNewItem) lpNewItem

/-- The fields of `MENUITEMINFO` that `InsertMenuItem` reads. -/
structure MENUITEMINFO where
  fType : UInt32
  wID : UInt32
  dwTypeData : Option Str
  deriving DecidableEq, Repr

/-- The flags that `InsertMenuItem` passes on; `MF_BYCOMMAND` is 0. -/
def itemFlag (fByPosition : Bool) (lpmi : MENUITEMINFO) : UInt32 :=
  if fByPosition then lpmi.fType ||| MF_BYPOSITION else lpmi.fType ||| 0

/-- `InsertMenuItem` -/
def InsertMenuItem (items : Items) (item : UInt32) (fByPosition : Bool) (lpmi : MENUITEMINFO) :
    Bool × Items :=
  InsertMenu w items item (itemFlag fByPosition lpmi) lpmi.wID.toUInt64 lpmi.dwTypeData

/-- `DeleteMenu`, which returns `FALSE` after it has erased an item by its position. -/
def DeleteMenu (items : Items) (uPos uFlag : UInt32) : Bool × Items :=
  if uFlag &&& MF_BYPOSITION ≠ 0 then
    if uPos.toNat < items.length then (false, items.eraseIdx uPos.toNat) else (false, items)
  else
    match findHere items uPos with
    | some k => (true, items.eraseIdx k)
    | none => (false, items)

/-- `RemoveMenu`; the difference of pointers into two vectors is undefined. -/
def RemoveMenu (items : Items) (uPosition uFlags : UInt32) : Option (Bool × Items) :=
  match FindItemBy items uPosition uFlags with
  | none => some (false, items)
  | some ([], k) => some (true, items.eraseIdx k)
  | some (_ :: _, _) => none

/-- The item that `ModifyMenu` has found, with `SetText`. -/
def modified (uIDNewItem : UInt64) (lpNewItem : Option Str) (item : SMenuItem) : SMenuItem :=
  { item with
    m_id := uIDNewItem.toUInt32
    m_strTitle := (lpNewItem.map Str.text).getD item.m_strTitle }

/-- `ModifyMenu` -/
def ModifyMenu (items : Items) (uPosition uFlags : UInt32) (uIDNewItem : UInt64)
    (lpNewItem : Option Str) : Bool × Items :=
  match FindItemBy items uPosition uFlags with
  | none => (false, items)
  | some (p, k) =>
    let set := fun n : Node SMenuItem => .mk (modified uIDNewItem lpNewItem n.label) n.children
    (true, edit (fun f => f.modify k set) p items)

/-- A call with its arguments. -/
inductive Call
  | insertMenu (uPos uFlag : UInt32) (uIDNewItem : UInt64) (lpNewItem : Option Str)
  | appendMenu (uFlags uIDNewItem : UInt32) (lpNewItem : Option Str)
  | insertMenuItem (item : UInt32) (fByPosition : Bool) (lpmi : MENUITEMINFO)
  | deleteMenu (uPos uFlag : UInt32)
  | removeMenu (uPosition uFlags : UInt32)
  | modifyMenu (uPosition uFlags : UInt32) (uIDNewItem : UInt64) (lpNewItem : Option Str)
  deriving DecidableEq, Repr

/-- What a call to a menu returns and leaves, if that is defined. -/
def exec (items : Items) : Call → Option (Bool × Items)
  | .insertMenu uPos uFlag uIDNewItem lpNewItem =>
    some (InsertMenu w items uPos uFlag uIDNewItem lpNewItem)
  | .appendMenu uFlags uIDNewItem lpNewItem =>
    some (AppendMenu w items uFlags uIDNewItem lpNewItem)
  | .insertMenuItem item fByPosition lpmi => some (InsertMenuItem w items item fByPosition lpmi)
  | .deleteMenu uPos uFlag => some (DeleteMenu items uPos uFlag)
  | .removeMenu uPosition uFlags => RemoveMenu items uPosition uFlags
  | .modifyMenu uPosition uFlags uIDNewItem lpNewItem =>
    some (ModifyMenu items uPosition uFlags uIDNewItem lpNewItem)

/-- A call to the menu at a path of a tree. -/
def execAt (path : List ℕ) (root : Items) (call : Call) : Option (Bool × Items) :=
  (sub path root).bind fun items =>
    (exec w items call).map fun r => (r.1, edit (fun _ => r.2) path root)

/-! ### What a call should do -/

def Call.Inserts : Call → Prop
  | .insertMenu .. => True
  | .appendMenu .. => True
  | .insertMenuItem .. => True
  | _ => False

/-- The place of a new item, by position or before the item with the id. -/
def wantedPlace (items : Items) (uPos : UInt32) (byPosition : Bool) : ℕ :=
  if byPosition then min uPos.toNat items.length else (findHere items uPos).getD items.length

/-- **The item that a call is about**, or the place of the new item. -/
def addressed (items : Items) : Call → Option (List ℕ × ℕ)
  | .insertMenu uPos uFlag _ _ => some ([], wantedPlace items uPos (uFlag &&& MF_BYPOSITION ≠ 0))
  | .appendMenu .. => some ([], items.length)
  | .insertMenuItem item fByPosition _ => some ([], wantedPlace items item fByPosition)
  | .deleteMenu uPos uFlag => FindItemBy items uPos uFlag
  | .removeMenu uPosition uFlags => FindItemBy items uPosition uFlags
  | .modifyMenu uPosition uFlags _ _ => FindItemBy items uPosition uFlags

/-- A new item with its sub-menu. -/
def newNode (uFlag : UInt32) (uIDNewItem : UInt64) (lpNewItem : Option Str) : Node SMenuItem :=
  let item := newItem uFlag uIDNewItem lpNewItem
  if uFlag &&& MF_POPUP ≠ 0 ∧ w.isWindow uIDNewItem then
    match w.menuOf uIDNewItem with
    | some menu => .mk { item with m_pSubMenu := some uIDNewItem } menu
    | none => .mk item []
  else .mk item []

/-- **What a call does to the list of items** of the menu of the item. -/
def effect (k : ℕ) (items : Items) : Call → Items
  | .insertMenu _ uFlag uIDNewItem lpNewItem =>
    items.insertIdx k (newNode w uFlag uIDNewItem lpNewItem)
  | .appendMenu uFlags uIDNewItem lpNewItem =>
    items.insertIdx k (newNode w (uFlags ||| MF_BYPOSITION) (signExtend uIDNewItem) lpNewItem)
  | .insertMenuItem _ fByPosition lpmi =>
    items.insertIdx k (newNode w (itemFlag fByPosition lpmi) lpmi.wID.toUInt64 lpmi.dwTypeData)
  | .deleteMenu .. => items.eraseIdx k
  | .removeMenu .. => items.eraseIdx k
  | .modifyMenu _ _ uIDNewItem lpNewItem =>
    items.modify k fun n => .mk (modified uIDNewItem lpNewItem n.label) n.children

/-- **A call to the menu `items` at a path refines the ordered tree.** -/
structure Refines (path : List ℕ) (root items : Items) (call : Call) (ret : Bool)
    (root' : Items) : Prop where
  result : execAt w path root call = some (ret, root')
  /-- A call that returns `FALSE` leaves the whole tree. -/
  unchanged : ret = false → root' = root
  /-- A call that returns `TRUE` does this to one menu. -/
  changed : ret = true → ∃ p k, addressed items call = some (p, k) ∧
    root' = edit (fun f => effect w k f call) (path ++ p) root
  /-- The other menus keep their items in their order. -/
  others : ∀ p k, addressed items call = some (p, k) → ∀ q, ¬ path ++ p <+: q →
    (sub q root').map labels = (sub q root).map labels
  /-- It returns `TRUE` if and only if the item is there. -/
  found : ¬ call.Inserts → (ret = true ↔ (addressed items call).isSome)

/-- The sub-menu of a new item is a window. -/
def PopupOk (uFlag : UInt32) (uIDNewItem : UInt64) : Prop :=
  uFlag &&& MF_POPUP ≠ 0 → w.isWindow uIDNewItem = true

/-- The items from the place `k` to `k'` are as the new one. -/
def Alike (items : Items) (n : Node SMenuItem) (k k' : ℕ) : Prop :=
  ∀ i, k ≤ i → i < k' → items[i]? = some n

/-- **By position a new item comes to the place `k`**: the position is out of range and that is the
end, or the position is in range and that is the front.  Items like the new one may be between. -/
def ByPositionOk (items : Items) (n : Node SMenuItem) (uPos : UInt32) (k : ℕ) : Prop :=
  if items.length ≤ uPos.toNat then Alike items n k items.length else Alike items n 0 k

/-- **The call is one that the code does right.** -/
def Acts (items : Items) : Call → Prop
  | .insertMenu uPos uFlag uIDNewItem lpNewItem =>
    PopupOk w uFlag uIDNewItem ∧
      (uFlag &&& MF_BYPOSITION ≠ 0 →
        ByPositionOk items (newNode w uFlag uIDNewItem lpNewItem) uPos
          (wantedPlace items uPos true))
  | .appendMenu uFlags uIDNewItem lpNewItem =>
    PopupOk w uFlags (signExtend uIDNewItem) ∧
      -- A position is a `UINT`.
      ByPositionOk items (newNode w (uFlags ||| MF_BYPOSITION) (signExtend uIDNewItem) lpNewItem)
        UINT_MAX items.length
  | .insertMenuItem item fByPosition lpmi =>
    PopupOk w lpmi.fType lpmi.wID.toUInt64 ∧
      -- The type may say `MF_BYPOSITION` as well.
      (fByPosition = true ∨ lpmi.fType &&& MF_BYPOSITION ≠ 0 →
        ByPositionOk items
          (newNode w (itemFlag fByPosition lpmi) lpmi.wID.toUInt64 lpmi.dwTypeData) item
          (wantedPlace items item fByPosition))
  | .deleteMenu uPos uFlag => ∀ p k, FindItemBy items uPos uFlag = some (p, k) →
    uFlag &&& MF_BYPOSITION = 0 ∧ p = []
  | .removeMenu uPosition uFlags => ∀ p k, FindItemBy items uPosition uFlags = some (p, k) → p = []
  | .modifyMenu .. => True

/-! ### Calls in a tree -/

variable {w} {path : List ℕ} {root items items' : Items} {call : Call}

/-- A call that does what it should in the menu does so in the tree. -/
theorem Refines.of_effect (hsub : sub path root = some items) {p : List ℕ} {k : ℕ}
    (haddr : addressed items call = some (p, k))
    (hexec : exec w items call = some (true, edit (fun f => effect w k f call) p items)) :
    Refines w path root items call true (edit (fun f => effect w k f call) (path ++ p) root) where
  result := by
    rw [execAt, hsub, Option.bind_some, hexec, edit_append]
    exact congrArg (fun r => some (true, r)) (edit_congr hsub rfl)
  unchanged h := absurd h (by decide)
  changed _ := ⟨p, k, haddr, rfl⟩
  others p' k' haddr' q hq := by
    obtain ⟨rfl, rfl⟩ := Prod.mk.inj (Option.some.inj (haddr.symm.trans haddr'))
    exact labels_sub_edit hq
  found _ := by
    rw [haddr]
    exact iff_of_true rfl rfl

theorem Refines.of_none (hsub : sub path root = some items) (haddr : addressed items call = none)
    (hexec : exec w items call = some (false, items)) :
    Refines w path root items call false root where
  result := by
    rw [execAt, hsub, Option.bind_some, hexec]
    exact congrArg (fun r => some (false, r)) (edit_eq_self hsub rfl)
  unchanged _ := rfl
  changed h := absurd h (by decide)
  others _ _ _ _ _ := rfl
  found _ := by
    rw [haddr]
    exact iff_of_false (by decide) (by decide)

theorem Refines.exec_eq {ret : Bool} {root' : Items} (h : Refines w path root items call ret root')
    (hsub : sub path root = some items) :
    ∃ items', exec w items call = some (ret, items') ∧
      root' = edit (fun _ => items') path root := by
  have hresult := h.result
  rw [execAt, hsub, Option.bind_some] at hresult
  obtain ⟨⟨r, items'⟩, hexec, heq⟩ := Option.map_eq_some_iff.1 hresult
  obtain ⟨rfl, rfl⟩ := Prod.mk.inj heq
  exact ⟨items', hexec, rfl⟩

/-- A call that puts an item in does so where it should, and returns `TRUE`. -/
theorem refines_insert_iff (hsub : sub path root = some items) {ret : Bool} {k : ℕ}
    (haddr : addressed items call = some ([], k))
    (hexec : exec w items call = some (ret, items')) (hne : items' ≠ items) :
    (∃ ret root', Refines w path root items call ret root') ↔
      ret = true ∧ items' = effect w k items call := by
  constructor
  · rintro ⟨r, root', h⟩
    obtain ⟨c, hc, hroot'⟩ := h.exec_eq hsub
    rw [hexec] at hc
    obtain ⟨rfl, rfl⟩ := Prod.mk.inj (Option.some.inj hc)
    cases ret with
    | false =>
      refine absurd (h.unchanged rfl) ?_
      rw [hroot']
      exact edit_ne hsub hne
    | true =>
      obtain ⟨p', k', haddr', hchanged⟩ := h.changed rfl
      rw [haddr] at haddr'
      obtain ⟨rfl, rfl⟩ := Prod.mk.inj (Option.some.inj haddr')
      rw [List.append_nil] at hchanged
      have hleft := sub_edit (g := fun _ => items') hsub
      rw [← hroot', hchanged, sub_edit hsub] at hleft
      exact ⟨rfl, (Option.some.inj hleft).symm⟩
  · rintro ⟨rfl, rfl⟩
    exact ⟨_, _, .of_effect hsub haddr hexec⟩

/-! ### New items -/

theorem or_and (x m n : UInt32) : (x ||| m) &&& n = (x &&& n) ||| (m &&& n) :=
  UInt32.toBitVec_inj.1 BitVec.and_or_distrib_right

theorem or_byPosition (flag : UInt32) : (flag ||| MF_BYPOSITION) &&& MF_BYPOSITION ≠ 0 := by
  rw [or_and, UInt32.and_self]
  intro h
  have hbits := congrArg UInt32.toBitVec h
  rw [UInt32.toBitVec_or] at hbits
  exact absurd (BitVec.or_eq_zero_iff.1 hbits).2 (by decide)

theorem or_popup (flag : UInt32) : (flag ||| MF_BYPOSITION) &&& MF_POPUP = flag &&& MF_POPUP := by
  rw [or_and, show MF_BYPOSITION &&& MF_POPUP = 0 from rfl, UInt32.or_zero]

theorem findHere_lt {id : UInt32} {k : ℕ} (h : findHere items id = some k) : k < items.length := by
  obtain ⟨hk, -⟩ := List.findIdx?_eq_some_iff_getElem.1 h
  exact hk

theorem insertPlace_le (items : Items) (uPos uFlag : UInt32) :
    insertPlace items uPos uFlag ≤ items.length := by
  unfold insertPlace
  split_ifs with h₁ h₂
  · exact Nat.le_refl _
  · exact Nat.zero_le _
  · cases h : findHere items uPos with
    | none => exact Nat.le_refl _
    | some k => exact Nat.le_of_lt (findHere_lt h)

theorem wantedPlace_le (items : Items) (uPos : UInt32) (byPosition : Bool) :
    wantedPlace items uPos byPosition ≤ items.length := by
  unfold wantedPlace
  split_ifs
  · exact Nat.min_le_right _ _
  · cases h : findHere items uPos with
    | none => exact Nat.le_refl _
    | some k => exact Nat.le_of_lt (findHere_lt h)

theorem insertIdx_eq_insertIdx_iff {n : Node SMenuItem} {k k' : ℕ} (hk : k ≤ k')
    (hk' : k' ≤ items.length) :
    items.insertIdx k n = items.insertIdx k' n ↔ Alike items n k k' := by
  constructor
  · intro h i hi
    have hat : ∀ j : ℕ, (items.insertIdx k n)[j]? = (items.insertIdx k' n)[j]? :=
      fun j => by rw [h]
    induction i, hi using Nat.le_induction with
    | base =>
      intro hlt
      have hhere := hat k
      rw [List.getElem?_insertIdx_self, if_pos (Nat.le_trans hk hk'),
        List.getElem?_insertIdx_of_lt hlt] at hhere
      exact hhere.symm
    | succ i hi ih =>
      intro hlt
      have hhere := hat (i + 1)
      rw [List.getElem?_insertIdx_of_gt (by omega), List.getElem?_insertIdx_of_lt hlt,
        Nat.add_sub_cancel, ih (by omega)] at hhere
      exact hhere.symm
  · intro h
    refine List.ext_getElem? fun j => ?_
    rcases Nat.lt_trichotomy j k with hlt | rfl | hgt
    · rw [List.getElem?_insertIdx_of_lt hlt, List.getElem?_insertIdx_of_lt (by omega)]
    · rw [List.getElem?_insertIdx_self, if_pos (by omega)]
      rcases Nat.lt_or_eq_of_le hk with hlt | rfl
      · rw [List.getElem?_insertIdx_of_lt hlt, h j (Nat.le_refl j) hlt]
      · rw [List.getElem?_insertIdx_self, if_pos hk']
    · rw [List.getElem?_insertIdx_of_gt hgt]
      rcases Nat.lt_trichotomy j k' with hlt | rfl | hgt'
      · rw [List.getElem?_insertIdx_of_lt hlt, h (j - 1) (by omega) (by omega),
          h j (by omega) hlt]
      · rw [List.getElem?_insertIdx_self, if_pos hk', h (j - 1) (by omega) (by omega)]
      · rw [List.getElem?_insertIdx_of_gt hgt']

/-- **When a new item comes to the place `k`**, which is the wanted one without `MF_BYPOSITION`. -/
theorem insertIdx_insertPlace_iff {n : Node SMenuItem} {uPos uFlag : UInt32} {k : ℕ}
    (hk : k ≤ items.length) (hcommand : uFlag &&& MF_BYPOSITION = 0 →
      k = wantedPlace items uPos false) :
    items.insertIdx (insertPlace items uPos uFlag) n = items.insertIdx k n ↔
      (uFlag &&& MF_BYPOSITION ≠ 0 → ByPositionOk items n uPos k) := by
  unfold insertPlace ByPositionOk
  by_cases hflag : uFlag &&& MF_BYPOSITION = 0
  · rw [if_neg (not_not.2 hflag), hcommand hflag]
    exact iff_of_true rfl fun h => absurd hflag h
  · simp only [hflag, ne_eq, not_false_eq_true, if_true, true_imp_iff]
    by_cases hend : items.length ≤ uPos.toNat
    · rw [if_pos hend, if_pos hend, eq_comm]
      exact insertIdx_eq_insertIdx_iff hk (Nat.le_refl _)
    · rw [if_neg hend, if_neg hend]
      exact insertIdx_eq_insertIdx_iff (Nat.zero_le k) hk

/-- **`InsertMenu` puts the item in**, and returns `FALSE` if it is a popup without a window. -/
theorem InsertMenu_eq (items : Items) (uPos uFlag : UInt32) (uIDNewItem : UInt64)
    (lpNewItem : Option Str) : ∃ ret,
      InsertMenu w items uPos uFlag uIDNewItem lpNewItem =
        (ret, items.insertIdx (insertPlace items uPos uFlag)
          (newNode w uFlag uIDNewItem lpNewItem)) ∧
      (ret = true ↔ PopupOk w uFlag uIDNewItem) := by
  unfold InsertMenu newNode PopupOk
  by_cases hpopup : uFlag &&& MF_POPUP ≠ 0
  · cases hwin : w.isWindow uIDNewItem with
    | false =>
      refine ⟨false, ?_, iff_of_false (by decide) fun h => absurd (h hpopup) (by decide)⟩
      simp only [if_pos hpopup, if_true, Bool.false_eq_true, and_false, if_false]
    | true =>
      refine ⟨true, ?_, iff_of_true rfl fun _ => rfl⟩
      simp only [Bool.true_eq_false, if_false, hpopup, ne_eq, not_false_eq_true,
        and_self, if_true]
      cases w.menuOf uIDNewItem <;> rfl
  · refine ⟨true, ?_, iff_of_true rfl fun h => absurd h hpopup⟩
    simp only [hpopup, false_and, if_false]

theorem insertIdx_ne (n : Node SMenuItem) {k : ℕ} (h : k ≤ items.length) :
    items.insertIdx k n ≠ items := by
  intro heq
  have hlen := congrArg List.length heq
  rw [List.length_insertIdx_of_le_length h] at hlen
  omega

theorem refines_new_iff (hsub : sub path root = some items) {k : ℕ} {uPos uFlag : UInt32}
    {uIDNewItem : UInt64} {lpNewItem : Option Str} (haddr : addressed items call = some ([], k))
    (hexec : exec w items call = some (InsertMenu w items uPos uFlag uIDNewItem lpNewItem))
    (heffect : effect w k items call = items.insertIdx k (newNode w uFlag uIDNewItem lpNewItem))
    (hk : k ≤ items.length)
    (hcommand : uFlag &&& MF_BYPOSITION = 0 → k = wantedPlace items uPos false) :
    (∃ ret root', Refines w path root items call ret root') ↔
      PopupOk w uFlag uIDNewItem ∧ (uFlag &&& MF_BYPOSITION ≠ 0 →
        ByPositionOk items (newNode w uFlag uIDNewItem lpNewItem) uPos k) := by
  obtain ⟨ret, hinsert, hret⟩ := InsertMenu_eq (w := w) items uPos uFlag uIDNewItem lpNewItem
  rw [hinsert] at hexec
  rw [← hret, ← insertIdx_insertPlace_iff hk hcommand, ← heffect]
  exact refines_insert_iff hsub haddr hexec (insertIdx_ne _ (insertPlace_le _ _ _))

/-! ### Items that are found -/

theorem findBelow_ne_nil {id : UInt32} {i k : ℕ} {p : List ℕ} {ns : List (Node SMenuItem)}
    (h : findBelow id i ns = some (p, k)) : p ≠ [] := by
  induction ns generalizing i with
  | nil => cases h
  | cons n ns ih =>
    rw [findBelow] at h
    cases hn : findIn id i n with
    | none =>
      rw [hn] at h
      exact ih h
    | some q =>
      rw [hn] at h
      obtain rfl := Option.some.inj h
      obtain ⟨item, below⟩ := n
      rw [findIn] at hn
      split_ifs at hn
      split at hn
      · obtain ⟨rfl, -⟩ := Prod.mk.inj (Option.some.inj hn)
        exact List.cons_ne_nil _ _
      · obtain ⟨q, -, hq⟩ := Option.map_eq_some_iff.1 hn
        obtain ⟨rfl, -⟩ := Prod.mk.inj hq
        exact List.cons_ne_nil _ _

/-- A call that returns `FALSE` although the item is there does not refine the tree. -/
theorem not_refines_of_found (hsub : sub path root = some items) {q : List ℕ × ℕ}
    (haddr : addressed items call = some q) (hins : ¬ call.Inserts)
    (hexec : exec w items call = some (false, items')) :
    ¬ ∃ ret root', Refines w path root items call ret root' := by
  rintro ⟨ret, root', h⟩
  obtain ⟨c, hc, -⟩ := h.exec_eq hsub
  rw [hexec] at hc
  obtain ⟨rfl, -⟩ := Prod.mk.inj (Option.some.inj hc)
  have hfound := h.found hins
  rw [haddr] at hfound
  exact absurd (hfound.2 rfl) (by decide)

theorem refines_delete_iff (hsub : sub path root = some items) (uPos uFlag : UInt32) :
    (∃ ret root', Refines w path root items (.deleteMenu uPos uFlag) ret root') ↔
      Acts w items (.deleteMenu uPos uFlag) := by
  have hins : ¬ (Call.deleteMenu uPos uFlag).Inserts := id
  by_cases hflag : uFlag &&& MF_BYPOSITION = 0
  · have hfind : FindItemBy items uPos uFlag = FindItem items uPos := if_neg (not_not.2 hflag)
    cases hhere : findHere items uPos with
    | some k =>
      have hk : FindItemBy items uPos uFlag = some ([], k) := by
        rw [hfind, FindItem, hhere]
      have hexec : exec w items (.deleteMenu uPos uFlag) = some (true, items.eraseIdx k) := by
        rw [exec, DeleteMenu, if_neg (not_not.2 hflag), hhere]
      refine iff_of_true ⟨_, _, .of_effect hsub hk hexec⟩ fun p k' hp => ?_
      rw [hk] at hp
      exact ⟨hflag, (Prod.mk.inj (Option.some.inj hp)).1.symm⟩
    | none =>
      have hexec : exec w items (.deleteMenu uPos uFlag) = some (false, items) := by
        rw [exec, DeleteMenu, if_neg (not_not.2 hflag), hhere]
      cases hbelow : findBelow uPos 0 items with
      | none =>
        have hnone : FindItemBy items uPos uFlag = none := by
          rw [hfind, FindItem, hhere, hbelow]
        refine iff_of_true ⟨_, _, .of_none hsub hnone hexec⟩ fun p k hp => ?_
        rw [hnone] at hp
        cases hp
      | some q =>
        have hsome : FindItemBy items uPos uFlag = some q := by
          rw [hfind, FindItem, hhere, hbelow]
        refine iff_of_false (not_refines_of_found hsub hsome hins hexec) fun h => ?_
        exact findBelow_ne_nil hbelow (h q.1 q.2 hsome).2
  · -- By position an item is erased, and `FALSE` is returned.
    by_cases hlt : uPos.toNat < items.length
    · have hsome : FindItemBy items uPos uFlag = some ([], uPos.toNat) := by
        rw [FindItemBy, if_pos hflag, if_pos hlt]
      have hexec : exec w items (.deleteMenu uPos uFlag) =
          some (false, items.eraseIdx uPos.toNat) := by
        rw [exec, DeleteMenu, if_pos hflag, if_pos hlt]
      refine iff_of_false (not_refines_of_found hsub hsome hins hexec) fun h => ?_
      exact hflag (h _ _ hsome).1
    · have hnone : FindItemBy items uPos uFlag = none := by
        rw [FindItemBy, if_pos hflag, if_neg hlt]
      have hexec : exec w items (.deleteMenu uPos uFlag) = some (false, items) := by
        rw [exec, DeleteMenu, if_pos hflag, if_neg hlt]
      refine iff_of_true ⟨_, _, .of_none hsub hnone hexec⟩ fun p k hp => ?_
      rw [hnone] at hp
      cases hp

theorem refines_remove_iff (hsub : sub path root = some items) (uPosition uFlags : UInt32) :
    (∃ ret root', Refines w path root items (.removeMenu uPosition uFlags) ret root') ↔
      Acts w items (.removeMenu uPosition uFlags) := by
  cases hfind : FindItemBy items uPosition uFlags with
  | none =>
    have hexec : exec w items (.removeMenu uPosition uFlags) = some (false, items) := by
      rw [exec, RemoveMenu, hfind]
    refine iff_of_true ⟨_, _, .of_none hsub hfind hexec⟩ fun p k hp => ?_
    rw [hfind] at hp
    cases hp
  | some q =>
    obtain ⟨p, k⟩ := q
    cases p with
    | nil =>
      have hexec : exec w items (.removeMenu uPosition uFlags) =
          some (true, items.eraseIdx k) := by
        rw [exec, RemoveMenu, hfind]
      refine iff_of_true ⟨_, _, .of_effect hsub hfind hexec⟩ fun p k' hp => ?_
      rw [hfind] at hp
      exact (Prod.mk.inj (Option.some.inj hp)).1.symm
    | cons i p =>
      have hexec : exec w items (.removeMenu uPosition uFlags) = none := by
        rw [exec, RemoveMenu, hfind]
      refine iff_of_false ?_ fun h => absurd (h _ _ hfind) (List.cons_ne_nil i p)
      rintro ⟨ret, root', h⟩
      obtain ⟨c, hc, -⟩ := h.exec_eq hsub
      rw [hexec] at hc
      cases hc

theorem refines_modify (hsub : sub path root = some items) (uPosition uFlags : UInt32)
    (uIDNewItem : UInt64) (lpNewItem : Option Str) :
    ∃ ret root',
      Refines w path root items (.modifyMenu uPosition uFlags uIDNewItem lpNewItem) ret root' := by
  cases hfind : FindItemBy items uPosition uFlags with
  | none =>
    have hexec : exec w items (.modifyMenu uPosition uFlags uIDNewItem lpNewItem) =
        some (false, items) := by
      rw [exec, ModifyMenu, hfind]
    exact ⟨_, _, .of_none hsub hfind hexec⟩
  | some q =>
    have hexec : exec w items (.modifyMenu uPosition uFlags uIDNewItem lpNewItem) =
        some (true, edit (fun f => effect w q.2 f
          (.modifyMenu uPosition uFlags uIDNewItem lpNewItem)) q.1 items) := by
      rw [exec, ModifyMenu, hfind]
      rfl
    exact ⟨_, _, .of_effect hsub hfind hexec⟩

/-- **A call to a menu refines the ordered tree** if and only if it acts right: a popup that is
inserted has a window, a new item is not put at a position in range behind the first one, nothing
is deleted by its position, and the item that is deleted or removed is not in a sub-menu. -/
theorem calls_refine_iff (hsub : sub path root = some items) (call : Call) :
    (∃ ret root', Refines w path root items call ret root') ↔ Acts w items call := by
  cases call with
  | insertMenu uPos uFlag uIDNewItem lpNewItem =>
    rw [refines_new_iff hsub rfl rfl rfl (wantedPlace_le items uPos _) fun hflag => by
      rw [decide_eq_false (not_not.2 hflag)]]
    refine and_congr_right fun _ => imp_congr_right fun hflag => ?_
    rw [decide_eq_true hflag]
  | appendMenu uFlags uIDNewItem lpNewItem =>
    rw [refines_new_iff hsub rfl rfl rfl (Nat.le_refl _) fun hflag =>
      absurd hflag (or_byPosition uFlags), PopupOk, or_popup]
    exact and_congr_right fun _ => imp_iff_right (or_byPosition uFlags)
  | insertMenuItem item fByPosition lpmi =>
    cases fByPosition with
    | true =>
      have hflag : itemFlag true lpmi = lpmi.fType ||| MF_BYPOSITION := rfl
      rw [refines_new_iff hsub rfl rfl rfl (wantedPlace_le items item true) fun hzero =>
        absurd (hflag ▸ hzero) (or_byPosition lpmi.fType), PopupOk, hflag, or_popup,
        imp_iff_right (or_byPosition lpmi.fType)]
      exact and_congr_right fun _ => (imp_iff_right (.inl rfl)).symm
    | false =>
      have hflag : itemFlag false lpmi = lpmi.fType := UInt32.or_zero
      rw [refines_new_iff hsub rfl rfl rfl (wantedPlace_le items item false) fun _ => rfl, hflag]
      refine and_congr_right fun _ => imp_congr ?_ ?_
      · exact (or_iff_right Bool.false_ne_true).symm
      · rw [hflag]
  | deleteMenu uPos uFlag => exact refines_delete_iff hsub uPos uFlag
  | removeMenu uPosition uFlags => exact refines_remove_iff hsub uPosition uFlags
  | modifyMenu uPosition uFlags uIDNewItem lpNewItem =>
    exact iff_of_true (refines_modify hsub uPosition uFlags uIDNewItem lpNewItem) trivial

/-- A menu of an item and a sub-menu with one item. -/
def twoMenus : Items :=
  [.mk ⟨0, 1, none, [], none⟩ [],
    .mk ⟨MF_POPUP, 2, none, [], some 7⟩ [.mk ⟨0, 3, none, [], none⟩ []]]

/-- The item of the sub-menu is modified from there. -/
theorem refines_modify_below :
    (∃ ret root', Refines ⟨fun _ => false, fun _ => none⟩ [1] twoMenus
      [.mk ⟨0, 3, none, [], none⟩ []] (.modifyMenu 3 0 4 none) ret root') ↔
      Acts ⟨fun _ => false, fun _ => none⟩ [.mk ⟨0, 3, none, [], none⟩ []]
        (.modifyMenu 3 0 4 none) :=
  have hsub : sub [1] twoMenus = some [.mk ⟨0, 3, none, [], none⟩ []] := rfl
  calls_refine_iff hsub (.modifyMenu 3 0 4 none)

/-- An item comes to the front by the position 1, a popup without a window is put in and `FALSE` is
returned, an item is deleted by its position and `FALSE` is returned, and the item of the sub-menu
is neither deleted nor removed. -/
theorem not_refined :
    (¬ ∃ ret root', Refines ⟨fun _ => false, fun _ => none⟩ [] twoMenus twoMenus
      (.insertMenu 1 MF_BYPOSITION 9 none) ret root') ∧
    (¬ ∃ ret root', Refines ⟨fun _ => false, fun _ => none⟩ [] twoMenus twoMenus
      (.insertMenu 0 (MF_BYPOSITION ||| MF_POPUP) 9 none) ret root') ∧
    (¬ ∃ ret root', Refines ⟨fun _ => false, fun _ => none⟩ [] twoMenus twoMenus
      (.deleteMenu 0 MF_BYPOSITION) ret root') ∧
    (¬ ∃ ret root', Refines ⟨fun _ => false, fun _ => none⟩ [] twoMenus twoMenus
      (.deleteMenu 3 0) ret root') ∧
    ¬ ∃ ret root', Refines ⟨fun _ => false, fun _ => none⟩ [] twoMenus twoMenus
      (.removeMenu 3 0) ret root' := by
  have hsub : sub [] twoMenus = some twoMenus := rfl
  have hle (uPos : UInt32) : wantedPlace twoMenus uPos true ≤ twoMenus.length :=
    wantedPlace_le _ _ _
  refine ⟨fun h => ?_, fun h => ?_, fun h => ?_, fun h => ?_, fun h => ?_⟩
  · have hplace := ((refines_new_iff hsub rfl rfl rfl (hle 1) (absurd · (by decide))).1 h).2
      (by decide) 0 (by decide) (by decide)
    cases congrArg (Option.map fun n => n.label.m_id) hplace
  · exact absurd (((refines_new_iff hsub rfl rfl rfl (hle 0) (absurd · (by decide))).1 h).1
      (by decide)) (by decide)
  · exact absurd ((refines_delete_iff hsub 0 MF_BYPOSITION).1 h [] 0 rfl).1 (by decide)
  · exact absurd ((refines_delete_iff hsub 3 0).1 h [1] 0 rfl).2 (by decide)
  · exact absurd ((refines_remove_iff hsub 3 0).1 h [1] 0 rfl) (by decide)

end Menu

end Swinx
