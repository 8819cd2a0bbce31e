import Mathlib
import Swinx.Oleaut.SafeArrayIndex

/-!
# Safe arrays as grids

`SafeArrayPutElement` and `SafeArrayGetElement` copy an element of plain data into and out of the
block of a safe array, under a lock.  `SafeArrayRedim` changes the bounds of the last dimension: it
keeps the block if there are to be fewer elements, and takes a new one if there are to be more.

A grid has an element at each position, and no block.  An array does what a grid does, over any
calls, as long as its sizes fit into 32 bits; what is undefined in the array does not happen then.

* `Refines.step` — a step of the array is one of the grid.
* `run_eq_grid` — a new array gives the results of a new grid.
-/

namespace Swinx

namespace SafeArray

open MixedRadix

/-! ### The array -/

/-- A block of memory. -/
structure Data where
  size : ℕ
  bytes : ℕ → UInt8

namespace Data

/-- `SAFEARRAY_Malloc` -/
def malloc (n : ℕ) : Data := ⟨n, fun _ => 0⟩

/-- The `n` bytes at the offset `off`. -/
def read (d : Data) (off n : ℕ) : Option (List UInt8) :=
  if off + n ≤ d.size then some ((List.range n).map fun i => d.bytes (off + i)) else none

/-- The bytes `v` are written at the offset `off`. -/
def write (d : Data) (off : ℕ) (v : List UInt8) : Option Data :=
  if off + v.length ≤ d.size then
    some ⟨d.size, fun k => if off ≤ k ∧ k < off + v.length then v.getD (k - off) 0 else d.bytes k⟩
  else none

/-- `memcpy` of `n` bytes from the block `src`. -/
def copy (d : Data) (src : Data) (n : ℕ) : Option Data :=
  if n ≤ src.size ∧ n ≤ d.size then
    some ⟨d.size, fun k => if k < n then src.bytes k else d.bytes k⟩
  else none

end Data

/-- An `HRESULT`. -/
inductive Hresult
  | sOk
  | invalidArg
  | unexpected
  | badIndex
  | arrayIsLocked
  | outOfMemory
  deriving DecidableEq, Repr

/-- A `SAFEARRAY` of plain data. -/
structure Descriptor where
  /-- `FADF_FIXEDSIZE` -/
  fixedSize : Bool
  cbElements : ℕ
  cLocks : ℤ
  pvData : Option Data
  /-- The last dimension first. -/
  rgsabound : List Bound

/-- `SafeArrayCreate`, for the bounds `bs` and elements of `cb` bytes; `malloc`: there is memory. -/
def create (cb : ℕ) (bs : List Bound) (malloc : Bool) : Option Descriptor :=
  if bs.length = 0 ∨ 65536 ≤ bs.length then none
  else if cb = 0 ∨ malloc = false then none
  else some ⟨false, cb, 0, some (.malloc (dataSize bs.reverse cb)), bs.reverse⟩

namespace Descriptor

variable (psa : Descriptor)

/-- `SafeArrayLock` -/
def lock : Descriptor × Hresult :=
  let ulLocks := toLong (psa.cLocks + 1)
  if 65535 < toUlong ulLocks then ({ psa with cLocks := toLong (ulLocks - 1) }, .unexpected)
  else ({ psa with cLocks := ulLocks }, .sOk)

/-- `SafeArrayUnlock` -/
def unlock : Descriptor × Hresult :=
  let cLocks := toLong (psa.cLocks - 1)
  if cLocks < 0 then ({ psa with cLocks := toLong (cLocks + 1) }, .unexpected)
  else ({ psa with cLocks := cLocks }, .sOk)

/-- `SafeArrayPutElement`: undefined (`none`) outside the block. -/
def putElement (rgIndices : List ℤ) (pvData : List UInt8) : Option (Descriptor × Hresult) :=
  match psa.lock with
  | (psa, .sOk) =>
    match ptrOfIndex psa.rgsabound psa.cbElements rgIndices with
    | some off => do
      let d ← psa.pvData
      let d ← d.write off pvData
      some (({ psa with pvData := some d }.unlock).1, .sOk)
    | none => some (psa.unlock.1, .badIndex)
  | (psa, hRet) => some (psa, hRet)

/-- `SafeArrayGetElement` -/
def getElement (rgIndices : List ℤ) : Option (Descriptor × Hresult × Option (List UInt8)) :=
  match psa.lock with
  | (psa, .sOk) =>
    match ptrOfIndex psa.rgsabound psa.cbElements rgIndices with
    | some off => do
      let d ← psa.pvData
      let v ← d.read off psa.cbElements
      some (psa.unlock.1, .sOk, some v)
    | none => some (psa.unlock.1, .badIndex, none)
  | (psa, hRet) => some (psa, hRet, none)

/-- The block for a last dimension of `cElements` more elements than there are. -/
def lengthen (rest : List Bound) (old : Bound) (cElements : ℕ) : Option Data :=
  let ulOldSize := toUlong (getCellCount (old :: rest) * psa.cbElements)
  let ulNewSize :=
    if ulOldSize ≠ 0 then toUlong ((ulOldSize / old.cElements : ℕ) * cElements)
    else toUlong (getCellCount ({ old with cElements := cElements } :: rest) * psa.cbElements)
  if ulOldSize = 0 then some (.malloc ulNewSize)
  else do
    let d ← psa.pvData
    (Data.malloc ulNewSize).copy d ulOldSize

/-- `SafeArrayRedim`; `malloc`: there is memory. -/
def redim (psabound : Bound) (malloc : Bool) : Option (Descriptor × Hresult) :=
  if psa.fixedSize then some (psa, .invalidArg)
  else if 0 < psa.cLocks then some (psa, .arrayIsLocked)
  else
    match psa.lock with
    | (psa, .sOk) =>
      match psa.rgsabound with
      | oldBounds :: rest =>
        -- The lower bound is set even where the block cannot be had.
        let oldBounds := { oldBounds with lLbound := psabound.lLbound }
        if oldBounds.cElements < psabound.cElements then
          if malloc then do
            let d ← psa.lengthen rest oldBounds psabound.cElements
            some ({ psa with pvData := some d, rgsabound := psabound :: rest }.unlock.1, .sOk)
          else some ({ psa with rgsabound := oldBounds :: rest }.unlock.1, .outOfMemory)
        else some ({ psa with rgsabound := psabound :: rest }.unlock.1, .sOk)
      | [] => none
    | (psa, hr) => some (psa, hr)

end Descriptor

/-- A call. -/
inductive Op
  | lock
  | unlock
  | putElement (rgIndices : List ℤ) (pvData : List UInt8)
  | getElement (rgIndices : List ℤ)
  | redim (psabound : Bound) (malloc : Bool)

/-- What a call returns, and the element that it has read. -/
abbrev Result := Hresult × Option (List UInt8)

/-- A call on the array. -/
def Descriptor.step (psa : Descriptor) : Op → Option (Descriptor × Result)
  | .lock => some (psa.lock.1, psa.lock.2, none)
  | .unlock => some (psa.unlock.1, psa.unlock.2, none)
  | .putElement is v => (psa.putElement is v).map fun (psa, hr) => (psa, hr, none)
  | .getElement is => psa.getElement is
  | .redim b malloc => (psa.redim b malloc).map fun (psa, hr) => (psa, hr, none)

/-- The results of calls on the array. -/
def Descriptor.run : Descriptor → List Op → Option (List Result)
  | _, [] => some []
  | psa, op :: ops => do
    let (psa, r) ← psa.step op
    let rs ← psa.run ops
    some (r :: rs)

/-! ### The grid -/

/-- Elements in a grid. -/
structure Grid where
  fixedSize : Bool
  /-- The size of an element. -/
  cb : ℕ
  locks : ℕ
  /-- The first dimension first. -/
  bounds : List Bound
  elems : List ℕ → List UInt8

/-- A grid of zeros. -/
def Grid.new (cb : ℕ) (bs : List Bound) : Grid := ⟨false, cb, 0, bs, fun _ => List.replicate cb 0⟩

namespace Grid

variable (g : Grid)

/-- The grid with another last dimension: what is in both is kept, and the rest is zero. -/
def resize (b : Bound) : Grid :=
  { g with
    bounds := g.bounds.dropLast ++ [b]
    elems := fun ds => if Within (sides g.bounds) ds then g.elems ds else List.replicate g.cb 0 }

/-- A call on the grid. -/
def step : Op → Grid × Result
  | .lock => if g.locks < 65535 then ({ g with locks := g.locks + 1 }, .sOk, none)
    else (g, .unexpected, none)
  | .unlock => if 0 < g.locks then ({ g with locks := g.locks - 1 }, .sOk, none)
    else (g, .unexpected, none)
  | .putElement is v =>
    if g.locks = 65535 then (g, .unexpected, none)
    else if InBounds g.bounds is then
      ({ g with elems := Function.update g.elems (positions g.bounds is) v }, .sOk, none)
    else (g, .badIndex, none)
  | .getElement is =>
    if g.locks = 65535 then (g, .unexpected, none)
    else if InBounds g.bounds is then (g, .sOk, some (g.elems (positions g.bounds is)))
    else (g, .badIndex, none)
  | .redim b malloc =>
    if g.fixedSize then (g, .invalidArg, none)
    else if 0 < g.locks then (g, .arrayIsLocked, none)
    else
      match g.bounds.getLast? with
      | some old =>
        if old.cElements < b.cElements ∧ malloc = false then
          (g.resize { b with cElements := old.cElements }, .outOfMemory, none)
        else (g.resize b, .sOk, none)
      | none => (g, .unexpected, none)

/-- The results of calls on the grid. -/
def run : Grid → List Op → List Result
  | _, [] => []
  | g, op :: ops => (g.step op).2 :: (g.step op).1.run ops

/-- What the caller promises: an index in each dimension, an element of the right size, and bounds
that fit into 32 bits. -/
def Fits : Op → Prop
  | .lock | .unlock => True
  | .putElement is v => is.length = g.bounds.length ∧ v.length = g.cb
  | .getElement is => is.length = g.bounds.length
  | .redim b _ => b.Ok ∧ (sides (g.bounds.dropLast ++ [b])).prod * g.cb < 4294967296

/-- The calls fit, one after the other. -/
def AllFit : Grid → List Op → Prop
  | _, [] => True
  | g, op :: ops => g.Fits op ∧ (g.step op).1.AllFit ops

end Grid

/-! ### Blocks -/

namespace Data

variable {d d' : Data} {off off' n : ℕ} {v : List UInt8}

theorem read_eq (h : off + n ≤ d.size) :
    d.read off n = some ((List.range n).map fun i => d.bytes (off + i)) := if_pos h

theorem read_eq_some (h : off + n ≤ d.size) (hlen : v.length = n)
    (hv : ∀ i < n, d.bytes (off + i) = v.getD i 0) : d.read off n = some v := by
  rw [read_eq h]
  congr 1
  refine List.ext_getElem (by simp [hlen]) fun i hi _ => ?_
  rw [List.length_map, List.length_range] at hi
  rw [List.getElem_map, List.getElem_range, hv i hi, List.getD_eq_getElem]

theorem exists_write (d : Data) (off : ℕ) (h : off + v.length ≤ d.size) :
    ∃ d', d.write off v = some d' ∧ d'.size = d.size ∧
      (∀ i < v.length, d'.bytes (off + i) = v.getD i 0) ∧
      ∀ k, k < off ∨ off + v.length ≤ k → d'.bytes k = d.bytes k := by
  refine ⟨_, if_pos h, rfl, fun i hi => ?_, fun k hk => ?_⟩
  · change (if off ≤ off + i ∧ off + i < off + v.length then v.getD (off + i - off) 0 else _) = _
    rw [if_pos (by omega), Nat.add_sub_cancel_left]
  · exact if_neg (by omega)

end Data

/-! ### The array does what the grid does -/

/-- The array `psa` is the grid `g`. -/
structure Refines (psa : Descriptor) (g : Grid) : Prop where
  fixedSize : psa.fixedSize = g.fixedSize
  cb : psa.cbElements = g.cb
  cb_pos : 0 < g.cb
  cLocks : psa.cLocks = g.locks
  locks_le : g.locks ≤ 65535
  bounds : psa.rgsabound = g.bounds.reverse
  ne : g.bounds ≠ []
  ok : ∀ b ∈ g.bounds, b.Ok
  fits : (sides g.bounds).prod * g.cb < 4294967296
  length : ∀ ds, Within (sides g.bounds) ds → (g.elems ds).length = g.cb
  data : ∃ d, psa.pvData = some d ∧ (sides g.bounds).prod * g.cb ≤ d.size ∧
    ∀ ds, Within (sides g.bounds) ds → ∀ i < g.cb,
      d.bytes (value (sides g.bounds) ds * g.cb + i) = (g.elems ds).getD i 0

namespace Refines

variable {psa : Descriptor} {g : Grid} {is : List ℤ} {v : List UInt8} {b : Bound} {malloc : Bool}

/-- `SafeArrayLock` gives the array the locks of the grid, or none. -/
theorem lock_eq (h : Refines psa g) : psa.lock = if g.locks < 65535 then
    ({ psa with cLocks := (g.locks + 1 : ℕ) }, .sOk) else (psa, .unexpected) := by
  have hle := h.locks_le
  have hlong : toLong (psa.cLocks + 1) = (g.locks + 1 : ℕ) := by
    rw [h.cLocks]
    exact Int.bmod_eq_of_le (by omega) (by omega)
  have hulong : toUlong ((g.locks + 1 : ℕ) : ℤ) = g.locks + 1 := by
    rw [toUlong_natCast, Nat.mod_eq_of_lt (by omega)]
  have hback : toLong (((g.locks + 1 : ℕ) : ℤ) - 1) = psa.cLocks := by
    rw [h.cLocks, show ((g.locks + 1 : ℕ) : ℤ) - 1 = g.locks by omega]
    exact Int.bmod_eq_of_le (by omega) (by omega)
  simp only [Descriptor.lock, hlong, hulong, hback]
  split_ifs <;> first | rfl | omega

theorem unlock_eq {n : ℕ} (hn : psa.cLocks = n) (hle : n ≤ 65535) : psa.unlock =
    if 0 < n then ({ psa with cLocks := (n - 1 : ℕ) }, .sOk) else (psa, .unexpected) := by
  have hlong : toLong (psa.cLocks - 1) = n - 1 := by
    rw [hn]
    exact Int.bmod_eq_of_le (by omega) (by omega)
  have hback : toLong ((n : ℤ) - 1 + 1) = psa.cLocks := by
    rw [hn, sub_add_cancel]
    exact Int.bmod_eq_of_le (by omega) (by omega)
  simp only [Descriptor.unlock, hlong, hback]
  split_ifs with h₁ h₂
  · omega
  · rfl
  · rw [Nat.cast_sub (by omega), Nat.cast_one]
  · omega

theorem unlock_lock (h : Refines psa g) (hlt : g.locks < 65535) (d : Option Data)
    (bs : List Bound) :
    ({ psa with cLocks := (g.locks + 1 : ℕ), pvData := d, rgsabound := bs } : Descriptor).unlock.1 =
      { psa with pvData := d, rgsabound := bs } := by
  rw [unlock_eq (n := g.locks + 1) rfl (by omega), if_pos (by omega)]
  simp only [Nat.add_sub_cancel, h.cLocks]

theorem ptrOfIndex_eq (h : Refines psa g) (hlen : is.length = g.bounds.length) :
    ptrOfIndex psa.rgsabound psa.cbElements is = if InBounds g.bounds is then
      some (value (sides g.bounds) (positions g.bounds is) * g.cb) else none := by
  rw [h.bounds, h.cb, SafeArray.ptrOfIndex_eq g.cb h.ne h.ok hlen]
  refine if_ctx_congr Iff.rfl (fun his => ?_) fun _ => rfl
  rw [Nat.mod_eq_of_lt]
  exact (Nat.mul_lt_mul_of_pos_right (value_lt his.within) h.cb_pos).trans h.fits

theorem value_le {ds : List ℕ} (hds : Within (sides g.bounds) ds) :
    value (sides g.bounds) ds * g.cb + g.cb ≤ (sides g.bounds).prod * g.cb := by
  calc value (sides g.bounds) ds * g.cb + g.cb = (value (sides g.bounds) ds + 1) * g.cb := by ring
    _ ≤ (sides g.bounds).prod * g.cb := Nat.mul_le_mul_right g.cb (value_lt hds)

theorem lock (h : Refines psa g) :
    psa.lock.2 = (g.step .lock).2.1 ∧ Refines psa.lock.1 (g.step .lock).1 := by
  rw [h.lock_eq, Grid.step]
  split_ifs with hlt
  · refine ⟨rfl, ?_⟩
    exact { h with cLocks := rfl, locks_le := Nat.succ_le_of_lt hlt }
  · exact ⟨rfl, h⟩

theorem unlock (h : Refines psa g) :
    psa.unlock.2 = (g.step .unlock).2.1 ∧ Refines psa.unlock.1 (g.step .unlock).1 := by
  rw [unlock_eq h.cLocks h.locks_le, Grid.step]
  split_ifs with hlt
  · refine ⟨rfl, ?_⟩
    exact { h with cLocks := rfl, locks_le := (Nat.sub_le _ _).trans h.locks_le }
  · exact ⟨rfl, h⟩

theorem write (h : Refines psa g) {p : List ℕ} (hp : Within (sides g.bounds) p)
    (hv : v.length = g.cb) : ∃ d d', psa.pvData = some d ∧
      d.write (value (sides g.bounds) p * g.cb) v = some d' ∧
        Refines { psa with pvData := some d' } { g with elems := Function.update g.elems p v } := by
  obtain ⟨d, hd, hsize, hbytes⟩ := h.data
  have hend := value_le hp
  obtain ⟨d', hd', hsize', hnew, hold⟩ := d.exists_write (v := v)
    (value (sides g.bounds) p * g.cb) (by omega)
  refine ⟨d, d', hd, hd', { h with
    length := fun ds hds => ?_, data := ⟨d', rfl, hsize' ▸ hsize, fun ds hds i hi => ?_⟩ }⟩
  · change (Function.update g.elems p v ds).length = g.cb
    by_cases hpos : ds = p
    · rw [hpos, Function.update_self, hv]
    · rw [Function.update_of_ne hpos]
      exact h.length ds hds
  · change Within (sides g.bounds) ds at hds
    change d'.bytes (value (sides g.bounds) ds * g.cb + i) =
      (Function.update g.elems p v ds).getD i 0
    change i < g.cb at hi
    by_cases hpos : ds = p
    · rw [hpos, Function.update_self]
      exact hnew i (by omega)
    · -- Another position has another offset, and elements do not overlap.
      rw [Function.update_of_ne hpos, hold, hbytes ds hds i hi]
      rcases Nat.lt_or_gt_of_ne fun e => hpos (value_inj hds hp e) with hlt | hgt
      · have := Nat.mul_le_mul_right g.cb (Nat.succ_le_of_lt hlt)
        rw [Nat.succ_mul] at this
        omega
      · have := Nat.mul_le_mul_right g.cb (Nat.succ_le_of_lt hgt)
        rw [Nat.succ_mul] at this
        omega

theorem putElement (h : Refines psa g) (hlen : is.length = g.bounds.length)
    (hv : v.length = g.cb) : ∃ psa', psa.putElement is v =
      some (psa', (g.step (.putElement is v)).2.1) ∧
        Refines psa' (g.step (.putElement is v)).1 := by
  have hle := h.locks_le
  rw [Descriptor.putElement, h.lock_eq, Grid.step]
  by_cases hlt : g.locks < 65535
  · rw [if_pos hlt, if_neg (by omega)]
    have hptr := h.ptrOfIndex_eq hlen
    simp only [hptr]
    split_ifs with his
    · obtain ⟨d, d', hd, hd', hR⟩ := h.write his.within hv
      refine ⟨{ psa with pvData := some d' }, ?_, hR⟩
      simp only [hd, hd', Option.bind_eq_bind, Option.bind_some]
      rw [h.unlock_lock hlt (some d') psa.rgsabound]
    · refine ⟨psa, ?_, h⟩
      rw [h.unlock_lock hlt psa.pvData psa.rgsabound]
  · rw [if_neg hlt, if_pos (by omega)]
    exact ⟨psa, rfl, h⟩

theorem getElement (h : Refines psa g) (hlen : is.length = g.bounds.length) :
    psa.getElement is = some (psa, (g.step (.getElement is)).2) ∧
      (g.step (.getElement is)).1 = g := by
  have hle := h.locks_le
  rw [Descriptor.getElement, h.lock_eq, Grid.step]
  by_cases hlt : g.locks < 65535
  · rw [if_pos hlt, if_neg (by omega)]
    have hptr := h.ptrOfIndex_eq hlen
    simp only [hptr]
    split_ifs with his
    · obtain ⟨d, hd, hsize, hbytes⟩ := h.data
      have hend := value_le his.within
      have hread := Data.read_eq_some (d := d) (by omega) (h.length _ his.within)
        (hbytes _ his.within)
      rw [← h.cb] at hread
      refine ⟨?_, rfl⟩
      simp only [hd, ← h.cb] at hread ⊢
      simp only [hread, Option.bind_eq_bind, Option.bind_some]
      rw [h.unlock_lock hlt (some d) psa.rgsabound, ← hd]
    · refine ⟨?_, rfl⟩
      rw [h.unlock_lock hlt psa.pvData psa.rgsabound]
  · rw [if_neg hlt, if_pos (by omega)]
    exact ⟨rfl, rfl⟩

section redim

variable {bs : List Bound} {old new : Bound} {d d' : Data}

/-- **Another last dimension.**  A block that has the elements of the old one, as far as they are in
the new grid, and zeros behind them, is the resized grid. -/
theorem resize (h : Refines psa g) (hbounds : g.bounds = bs ++ [old]) (hnew : new.Ok)
    (hfits : (sides bs).prod * new.cElements * g.cb < 4294967296) (hd : psa.pvData = some d)
    (hsize : (sides bs).prod * new.cElements * g.cb ≤ d'.size)
    (hkeep : ∀ k < (sides bs).prod * old.cElements * g.cb, d'.bytes k = d.bytes k)
    (hzero : ∀ k, (sides bs).prod * old.cElements * g.cb ≤ k →
      k < (sides bs).prod * new.cElements * g.cb → d'.bytes k = 0) :
    Refines { psa with pvData := some d', rgsabound := new :: bs.reverse } (g.resize new) := by
  have hresize : (g.resize new).bounds = bs ++ [new] := by
    rw [Grid.resize, hbounds, List.dropLast_concat]
  have hpos := h.cb_pos
  obtain ⟨d₀, hd₀, -, hbytes⟩ := h.data
  obtain rfl : d = d₀ := Option.some.inj (hd.symm.trans hd₀)
  refine ⟨h.fixedSize, h.cb, h.cb_pos, h.cLocks, h.locks_le, ?_, ?_, ?_, ?_, ?_, d', rfl, ?_, ?_⟩
  · rw [hresize, List.reverse_append]
    rfl
  · rw [hresize]
    simp
  · intro b hb
    rw [hresize, List.mem_append, List.mem_singleton] at hb
    rcases hb with hb | rfl
    · exact h.ok b (by rw [hbounds]; exact List.mem_append_left _ hb)
    · exact hnew
  · rw [hresize, prod_sides_snoc]
    exact hfits
  · intro ds _
    change (if Within (sides g.bounds) ds then g.elems ds else List.replicate g.cb 0).length = g.cb
    split_ifs with hds
    · exact h.length ds hds
    · exact List.length_replicate
  · rw [hresize, prod_sides_snoc]
    exact hsize
  · intro ds hds i hi
    rw [hresize] at hds ⊢
    change i < g.cb at hi
    rw [sides_snoc] at hds ⊢
    obtain ⟨es, e, rfl, hes, he⟩ := hds.exists_snoc
    have hvalue : ∀ n : ℕ, value (sides bs ++ [n]) (es ++ [e]) =
        value (sides bs) es + (sides bs).prod * e := fun n => value_snoc hes.length_eq
    have hlt := value_lt hes
    change d'.bytes (value _ (es ++ [e]) * g.cb + i) =
      (if Within (sides g.bounds) (es ++ [e]) then g.elems (es ++ [e])
        else List.replicate g.cb 0).getD i 0
    by_cases hold : e < old.cElements
    · have hw : Within (sides g.bounds) (es ++ [e]) := by
        rw [hbounds, sides_snoc]
        exact hes.snoc hold
      rw [if_pos hw, ← hbytes _ hw i hi, hbounds, sides_snoc, hvalue, hvalue, hkeep]
      have hle := value_le hw
      rw [hbounds, prod_sides_snoc, sides_snoc, hvalue] at hle
      omega
    · -- The layers behind the old ones are new.
      have hw : ¬ Within (sides g.bounds) (es ++ [e]) := by
        intro hw
        rw [hbounds, sides_snoc] at hw
        obtain ⟨es', e', heq, -, he'⟩ := hw.exists_snoc
        obtain ⟨-, hlast⟩ := List.append_inj' heq rfl
        cases hlast
        exact hold he'
      have hlow : (sides bs).prod * old.cElements * g.cb ≤
          (value (sides bs) es + (sides bs).prod * e) * g.cb :=
        Nat.mul_le_mul_right g.cb
          ((Nat.mul_le_mul_left _ (not_lt.1 hold)).trans (Nat.le_add_left _ _))
      have hhigh : (value (sides bs) es + (sides bs).prod * e + 1) * g.cb ≤
          (sides bs).prod * new.cElements * g.cb := by
        refine Nat.mul_le_mul_right g.cb ?_
        have := Nat.mul_le_mul_left (sides bs).prod (Nat.succ_le_of_lt he)
        rw [Nat.mul_succ] at this
        omega
      rw [Nat.succ_mul] at hhigh
      rw [if_neg hw, hvalue, hzero _ (by omega) (by omega), List.getD_replicate _ hi]

/-- The block for a longer dimension has the old elements, and zeros. -/
theorem lengthen_eq (psa : Descriptor) (bs : List Bound) (old new : Bound)
    (hlt : old.cElements < new.cElements)
    (hfits : (sides bs).prod * new.cElements * psa.cbElements < 4294967296)
    (hd : psa.pvData = some d)
    (hsize : (sides bs).prod * old.cElements * psa.cbElements ≤ d.size) :
    ∃ d', psa.lengthen bs.reverse old new.cElements = some d' ∧
      d'.size = (sides bs).prod * new.cElements * psa.cbElements ∧
      ∀ k, d'.bytes k =
        if k < (sides bs).prod * old.cElements * psa.cbElements then d.bytes k else 0 := by
  have hcount : ∀ b : Bound, (sides (b :: bs.reverse)).prod = (sides bs).prod * b.cElements := by
    intro b
    rw [sides, List.map_cons, List.prod_cons, ← sides, prod_sides_reverse, mul_comm]
  have hle : (sides bs).prod * old.cElements * psa.cbElements ≤
      (sides bs).prod * new.cElements * psa.cbElements :=
    Nat.mul_le_mul_right _ (Nat.mul_le_mul_left _ hlt.le)
  have hold : toUlong (getCellCount (old :: bs.reverse) * psa.cbElements) =
      (sides bs).prod * old.cElements * psa.cbElements := by
    refine dataSize_eq.trans ?_
    rw [hcount, Nat.mod_eq_of_lt (by omega)]
  have hnew : toUlong (getCellCount ({ old with cElements := new.cElements } :: bs.reverse) *
      psa.cbElements) = (sides bs).prod * new.cElements * psa.cbElements := by
    refine dataSize_eq.trans ?_
    rw [hcount, Nat.mod_eq_of_lt hfits]
  rw [Descriptor.lengthen, hold, hnew]
  -- Without elements the new size is counted anew; else it is the old one, scaled.
  by_cases hzero : (sides bs).prod * old.cElements * psa.cbElements = 0
  · refine ⟨_, by rw [if_pos hzero, if_neg (not_not.2 hzero)], rfl, fun k => ?_⟩
    rw [if_neg (by omega)]
    rfl
  · have hdiv : (sides bs).prod * old.cElements * psa.cbElements / old.cElements =
        (sides bs).prod * psa.cbElements := by
      have hpos : 0 < old.cElements := by
        by_contra hno
        rw [Nat.le_zero.1 (not_lt.1 hno)] at hzero
        simp at hzero
      rw [mul_right_comm, Nat.mul_div_cancel _ hpos]
    have hsame : (sides bs).prod * psa.cbElements * new.cElements =
        (sides bs).prod * new.cElements * psa.cbElements := mul_right_comm ..
    have hlong : toUlong (((sides bs).prod * psa.cbElements : ℕ) * (new.cElements : ℤ)) =
        (sides bs).prod * new.cElements * psa.cbElements := by
      rw [← Nat.cast_mul, toUlong_natCast, hsame, Nat.mod_eq_of_lt hfits]
    rw [if_neg hzero, if_pos hzero, hdiv, hlong, hd]
    simp only [Option.bind_eq_bind, Option.bind_some]
    exact ⟨_, if_pos ⟨hsize, hle⟩, rfl, fun k => rfl⟩

end redim

theorem redim (h : Refines psa g) (hfits : g.Fits (.redim b malloc)) :
    ∃ psa', psa.redim b malloc = some (psa', (g.step (.redim b malloc)).2.1) ∧
      Refines psa' (g.step (.redim b malloc)).1 := by
  obtain ⟨hb, hprod⟩ := hfits
  rw [Descriptor.redim, Grid.step, h.fixedSize, h.cLocks]
  by_cases hfixed : g.fixedSize = true
  · rw [if_pos hfixed, if_pos hfixed]
    exact ⟨psa, rfl, h⟩
  rw [if_neg hfixed, if_neg hfixed]
  by_cases hlocks : 0 < g.locks
  · rw [if_pos (by omega), if_pos hlocks]
    exact ⟨psa, rfl, h⟩
  rw [if_neg (by omega), if_neg hlocks, h.lock_eq, if_pos (by omega)]
  obtain ⟨bs, old, hbounds⟩ : ∃ bs old, g.bounds = bs ++ [old] :=
    ⟨_, _, (List.dropLast_append_getLast h.ne).symm⟩
  have hrgs : psa.rgsabound = old :: bs.reverse := by
    rw [h.bounds, hbounds, List.reverse_append]
    rfl
  have hlast : g.bounds.getLast? = some old := by
    rw [hbounds, List.getLast?_concat]
  rw [hbounds, List.dropLast_concat, prod_sides_snoc] at hprod
  obtain ⟨d, hd, hsize, -⟩ := id h.data
  rw [hbounds, prod_sides_snoc] at hsize
  simp only [hrgs, hlast]
  by_cases hlt : old.cElements < b.cElements
  · cases malloc with
    | true =>
      obtain ⟨d', hd', hsize', hbytes⟩ := lengthen_eq
        { psa with cLocks := (g.locks + 1 : ℕ), rgsabound := old :: bs.reverse } bs
        { old with lLbound := b.lLbound } b hlt (h.cb ▸ hprod) hd (h.cb ▸ hsize)
      simp only [hlt, if_true, hd', Option.bind_eq_bind, Option.bind_some, Bool.true_eq_false,
        and_false, if_false]
      refine ⟨_, congrArg some (Prod.ext (h.unlock_lock (by omega) (some d') _) rfl), ?_⟩
      refine h.resize hbounds hb hprod hd (by rw [hsize', ← h.cb]) ?_ ?_
      · intro k hk
        rw [hbytes, if_pos (by rw [h.cb]; exact hk)]
      · intro k hk _
        rw [hbytes, if_neg (by rw [h.cb]; exact not_lt.2 hk)]
    | false =>
      simp only [hlt, if_true, Bool.false_eq_true, if_false, true_and]
      refine ⟨_, congrArg some (Prod.ext (h.unlock_lock (by omega) psa.pvData _) rfl), ?_⟩
      have hold := h.ok old (by rw [hbounds]; simp)
      have hfits := h.fits
      rw [hbounds, prod_sides_snoc] at hfits
      rw [hd]
      -- There are as many elements as before, under another lower bound.
      refine h.resize hbounds ⟨hb.lower, ?_, hold.count⟩ hfits hd hsize (fun _ _ => rfl) ?_
      · have := hb.upper
        dsimp only
        omega
      · intro k hk hk'
        exact absurd hk' (not_lt.2 hk)
  · -- The block stays as long as it was; the elements at its end are given up.
    simp only [hlt, if_false, false_and]
    refine ⟨_, congrArg some (Prod.ext (h.unlock_lock (by omega) psa.pvData _) rfl), ?_⟩
    have hle : (sides bs).prod * b.cElements * g.cb ≤ (sides bs).prod * old.cElements * g.cb :=
      Nat.mul_le_mul_right _ (Nat.mul_le_mul_left _ (not_lt.1 hlt))
    rw [hd]
    refine h.resize hbounds hb hprod hd (hle.trans hsize) (fun _ _ => rfl) ?_
    intro k hk hk'
    omega

theorem step_value {op : Op} (hop : ∀ is, op ≠ .getElement is) : (g.step op).2.2 = none := by
  cases op with
  | getElement is => exact absurd rfl (hop is)
  | redim b malloc =>
    cases hlast : g.bounds.getLast? <;> simp only [Grid.step, hlast] <;> split_ifs <;> rfl
  | _ =>
    rw [Grid.step]
    split_ifs <;> rfl

/-- **The step lemma.** -/
theorem step (h : Refines psa g) {op : Op} (hfits : g.Fits op) :
    ∃ psa', psa.step op = some (psa', (g.step op).2) ∧ Refines psa' (g.step op).1 := by
  have hresult : ∀ {psa' : Descriptor} {hr : Hresult}, (∀ is, op ≠ .getElement is) →
      hr = (g.step op).2.1 → some (psa', hr, none) = some (psa', (g.step op).2) := by
    intro psa' hr hop hhr
    rw [hhr, ← step_value hop]
  cases op with
  | lock =>
    obtain ⟨hres, hR⟩ := h.lock
    exact ⟨_, hresult (by simp) hres, hR⟩
  | unlock =>
    obtain ⟨hres, hR⟩ := h.unlock
    exact ⟨_, hresult (by simp) hres, hR⟩
  | putElement is v =>
    obtain ⟨psa', hput, hR⟩ := h.putElement hfits.1 hfits.2
    refine ⟨psa', ?_, hR⟩
    rw [Descriptor.step, hput, Option.map_some]
    exact hresult (by simp) rfl
  | getElement is =>
    obtain ⟨hget, hg⟩ := h.getElement hfits
    exact ⟨psa, hget, hg.symm ▸ h⟩
  | redim b malloc =>
    obtain ⟨psa', hredim, hR⟩ := h.redim hfits
    refine ⟨psa', ?_, hR⟩
    rw [Descriptor.step, hredim, Option.map_some]
    exact hresult (by simp) rfl

theorem run (h : Refines psa g) {ops : List Op} (hfits : g.AllFit ops) :
    psa.run ops = some (g.run ops) := by
  induction ops generalizing psa g with
  | nil => rfl
  | cons op ops ih =>
    obtain ⟨psa', hstep, hR⟩ := h.step hfits.1
    simp only [Descriptor.run, hstep, Option.bind_eq_bind, Option.bind_some, ih hR hfits.2]
    rfl

end Refines

theorem refines_create {cb : ℕ} {bs : List Bound} {psa : Descriptor} {malloc : Bool}
    (hok : ∀ b ∈ bs, b.Ok) (hfits : (sides bs).prod * cb < 4294967296)
    (h : create cb bs malloc = some psa) : Refines psa (.new cb bs) := by
  rw [create] at h
  split_ifs at h with hlen hcb
  rw [not_or] at hlen hcb
  cases h
  refine ⟨rfl, rfl, Nat.pos_of_ne_zero hcb.1, rfl, Nat.zero_le _, rfl, ?_, hok, hfits, ?_, _, rfl,
    ?_, ?_⟩
  · exact fun hnil => hlen.1 (List.length_eq_zero_iff.2 hnil)
  · intro ds _
    exact List.length_replicate
  · change _ ≤ dataSize bs.reverse cb
    rw [dataSize_eq, prod_sides_reverse, Nat.mod_eq_of_lt hfits]
    exact le_refl _
  · intro ds _ i hi
    exact (List.getD_replicate _ hi).symm

/-- **A safe array is a grid.**  Whatever calls follow on its creation, it gives the results of the
grid, and nothing undefined happens, as long as bounds and sizes fit into 32 bits. -/
theorem run_eq_grid {cb : ℕ} {bs : List Bound} {psa : Descriptor} {malloc : Bool} {ops : List Op}
    (hok : ∀ b ∈ bs, b.Ok) (hfits : (sides bs).prod * cb < 4294967296)
    (h : create cb bs malloc = some psa) (hops : (Grid.new cb bs).AllFit ops) :
    psa.run ops = some ((Grid.new cb bs).run ops) :=
  (refines_create hok hfits h).run hops

/-- An element is kept when the last dimension grows; a new one is zero. -/
def sampleOps : List Op :=
  [.putElement [0, 6] [1, 2], .redim ⟨4, 3⟩ true, .getElement [0, 5], .lock, .redim ⟨0, 1⟩ true,
    .unlock, .getElement [1, 6], .getElement [1, 7]]

theorem run_eq_grid_sampleOps :
    (create 2 [⟨-1, 3⟩, ⟨5, 2⟩] true).bind (fun psa => psa.run sampleOps) =
      some ((Grid.new 2 [⟨-1, 3⟩, ⟨5, 2⟩]).run sampleOps) ∧
    (Grid.new 2 [⟨-1, 3⟩, ⟨5, 2⟩]).run sampleOps = [(.sOk, none), (.sOk, none),
      (.sOk, some [1, 2]), (.sOk, none), (.arrayIsLocked, none), (.sOk, none), (.sOk, some [0, 0]),
      (.badIndex, none)] := by
  refine ⟨?_, by decide⟩
  have hok : ∀ b ∈ [(⟨-1, 3⟩ : Bound), ⟨5, 2⟩], b.Ok := by
    simp only [List.forall_mem_cons]
    exact ⟨⟨by decide, by decide, by decide⟩, ⟨by decide, by decide, by decide⟩, by simp⟩
  exact @run_eq_grid 2 [⟨-1, 3⟩, ⟨5, 2⟩] _ true _ hok (by decide) rfl
    ⟨⟨rfl, rfl⟩, ⟨⟨by decide, by decide, by decide⟩, by decide⟩, rfl, trivial,
      ⟨⟨by decide, by decide, by decide⟩, by decide⟩, trivial, rfl, rfl, trivial⟩

end SafeArray

end Swinx
