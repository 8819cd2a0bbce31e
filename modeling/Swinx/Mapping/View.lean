import Mathlib.Data.List.Basic
import Mathlib.Logic.Function.Basic
import Swinx.LTS.Basic
import Swinx.Posix.Pages

/-!
# Views of file mappings

A file mapping object has one pointer, and the `FileMapData` one `mappedSize`; the data of a mapping
with a name is in the global table, and all objects of that name in all processes share it.  A view
holds a reference of the handle by which it was mapped.

A pointer is null, `MAP_FAILED`, or the first page of a range.  Assertions are off, as in a release
build.  The kernel gives out free pages, and `mmap` fails as it is documented to.

* `MapViewOfFile`, `UnmapViewOfFile`, `CloseHandle` — the calls; `next` : one step of a process.
* `Sound` — only ranges inside the mapping are mapped, and a view is unmapped by its own call.
* `Orderly` — the sum of the offset and the length does not overflow, and an object remembers the
  view that is unmapped.
-/

namespace Swinx

namespace Mapping

open Function (update)

/-- A pointer to mapped memory. -/
inductive Ptr
  | null
  /-- `MAP_FAILED` -/
  | failed
  | page (i : ℕ)
  deriving DecidableEq, Repr

/-- `FileMapData`; the size is not negative, since `ftruncate` has accepted it. -/
structure FileMapData where
  size : ℕ
  offset : ℕ
  mappedSize : ℕ
  size_lt : size < 9223372036854775808
  deriving DecidableEq, Repr

/-- An entry of the global table; `nRef` is 0 where there is none. -/
structure Entry where
  fmData : FileMapData
  nRef : ℕ
  deriving DecidableEq, Repr

/-- A handle with its `FileMapObject`. -/
structure Obj (π ν : Type*) where
  proc : π
  /-- The entry in the table, by its name. -/
  index : Option ν
  localFmd : FileMapData
  /-- The last view. -/
  ptr : Ptr
  /-- The references: the handle and its views. -/
  nRef : ℤ
  /-- Ghost: the handle itself is not closed. -/
  user : Bool

/-- Ghost: a view that has not been unmapped. -/
structure View (π : Type*) where
  proc : π
  base : ℕ
  len : ℕ
  handle : ℕ
  deriving DecidableEq, Repr

/-- The owner of a page. -/
inductive Owner
  /-- The view that begins at the page `base`. -/
  | view (base : ℕ)
  | other
  deriving DecidableEq, Repr

/-- Ghost: a call of `MapViewOfFile`. -/
structure MapCall where
  ret : Ptr
  offset : ℕ
  length : ℕ
  size : ℕ
  deriving DecidableEq, Repr

/-- Ghost: a call of `UnmapViewOfFile`, with what it has called `munmap` with. -/
structure UnmapCall (π : Type*) where
  view : View π
  ptr : Ptr
  size : ℕ
  deriving DecidableEq, Repr

/-- The processes `π` with mappings of names `ν`. -/
structure State (π ν : Type*) where
  table : ν → Entry
  handles : ℕ → Option (Obj π ν)
  /-- The next handle. -/
  next : ℕ
  /-- `m_fmviewMap` -/
  m_fmviewMap : π → ℕ → Option ℕ
  /-- Who has a page. -/
  mem : π → ℕ → Option Owner
  /-- Ghost: the views that are mapped. -/
  views : List (View π)
  /-- Ghost: the pages that other code has mapped. -/
  others : π → ℕ → Bool
  /-- Ghost: the last call of `MapViewOfFile`. -/
  mapped : Option MapCall
  /-- Ghost: the last call of `UnmapViewOfFile` for a view. -/
  unmapped : Option (UnmapCall π)

variable {π ν : Type*} [DecidableEq π] [DecidableEq ν]

/-- No mapping. -/
def init : State π ν where
  table _ := ⟨⟨0, 0, 0, by decide⟩, 0⟩
  handles _ := none
  next := 0
  m_fmviewMap _ _ := none
  mem _ _ := none
  views := []
  others _ _ := false
  mapped := none
  unmapped := none

namespace State

/-- `handleData()->data.fmData` -/
def fmData (s : State π ν) (obj : Obj π ν) : FileMapData :=
  match obj.index with
  | none => obj.localFmd
  | some name => (s.table name).fmData

/-- Write to the object of a handle. -/
def modify (s : State π ν) (h : ℕ) (f : Obj π ν → Obj π ν) : State π ν :=
  { s with handles := update s.handles h ((s.handles h).map f) }

/-- Write to `handleData()->data.fmData`. -/
def setFmData (s : State π ν) (h : ℕ) (obj : Obj π ν) (fmData : FileMapData) : State π ν :=
  { s with
    handles := update s.handles h ((s.handles h).map fun o =>
      { o with localFmd := if obj.index = none then fmData else o.localFmd })
    table := match obj.index with
      | none => s.table
      | some name => update s.table name { s.table name with fmData := fmData } }

/-- `NewFmHandle` -/
def newHandle (s : State π ν) (p : π) (index : Option ν) (localFmd : FileMapData) : State π ν :=
  { s with
    handles := update s.handles s.next (some ⟨p, index, localFmd, .null, 1, true⟩)
    next := s.next + 1 }

/-- `init2` and `NewFmHandle` for the entry of the name. -/
def openEntry (s : State π ν) (p : π) (name : ν) : State π ν :=
  let entry := s.table name
  newHandle { s with table := update s.table name { entry with nRef := entry.nRef + 1 } } p
    (some name) entry.fmData

/-- `munmap`; `MAP_FAILED` is not the address of a page. -/
def munmap (s : State π ν) (p : π) (ptr : Ptr) (size : ℕ) : State π ν :=
  { s with mem := match ptr with
      | .null => update s.mem p (unmapPages (s.mem p) 0 (pagesOf size))
      | .failed => s.mem
      | .page i => update s.mem p (unmapPages (s.mem p) i (pagesOf size)) }

/-- `getViewHandle` -/
def getViewHandle (s : State π ν) (p : π) (ptr : Ptr) : Option ℕ :=
  match ptr with
  | .page i => s.m_fmviewMap p i
  | _ => none

/-- `addMapView`; `insert` keeps what is there. -/
def addMapView (s : State π ν) (p : π) (base : ℕ) (h : ℕ) : State π ν :=
  { s.modify h fun obj => { obj with nRef := obj.nRef + 1 } with
    m_fmviewMap := match s.m_fmviewMap p base with
      | some _ => s.m_fmviewMap
      | none => update s.m_fmviewMap p
          (update (s.m_fmviewMap p) base (some h)) }

end State

/-- `CreateFileMappingA` for no file. -/
def CreateFileMappingA (s : State π ν) (p : π) (name : ν) (size : ℕ) : State π ν :=
  if 0 < (s.table name).nRef then s.openEntry p name
  else if hsize : size < 9223372036854775808 then
    State.openEntry
      { s with table := update s.table name ⟨⟨size, 0, 0, hsize⟩, 0⟩ } p name
  -- `ftruncate` refuses a negative size.
  else s

/-- `OpenFileMappingA` -/
def OpenFileMappingA (s : State π ν) (p : π) (name : ν) : State π ν :=
  if 0 < (s.table name).nRef then s.openEntry p name else s

/-- A number of 64 bits as the code compares it. -/
def toLongLong (x : ℕ) : ℤ :=
  if x < 9223372036854775808 then x else (x : ℤ) - 18446744073709551616

/-- The test of `MapViewOfFile` that refuses a range. -/
def refuses (size offset n : ℕ) : Prop :=
  (size : ℤ) < toLongLong ((offset + n) % 18446744073709551616)

instance decidableRefuses (size offset n : ℕ) : Decidable (refuses size offset n) :=
  inferInstanceAs (Decidable ((size : ℤ) < _))

/-- The length 0 stands for the rest. -/
def bytesToMap (size offset n : ℕ) : ℕ :=
  if n = 0 then (size + 18446744073709551616 - offset) % 18446744073709551616 else n

/-- `mmap` can return the page `base`. -/
def MmapOk (m : ℕ → Option Owner) (len offset base : ℕ) : Prop :=
  0 < len ∧ offset % 4096 = 0 ∧ offset + len < 9223372036854775808 ∧ 0 < base ∧
    FreePages m base (pagesOf len)

instance decidableMmapOk (m : ℕ → Option Owner) (len offset base : ℕ) :
    Decidable (MmapOk m len offset base) :=
  inferInstanceAs (Decidable (_ ∧ _))

/-- `MapViewOfFile`; `mmap` returns the page `base`, or fails. -/
def MapViewOfFile (s : State π ν) (h : ℕ) (obj : Obj π ν) (offset n : ℕ) (base : Option ℕ) :
    Option (State π ν) :=
  let fmData := s.fmData obj
  let call (ret : Ptr) : MapCall := ⟨ret, offset, n, fmData.size⟩
  if refuses fmData.size offset n then some { s with mapped := some (call .null) }
  else
    let len := bytesToMap fmData.size offset n
    match base with
    | none =>
      some { s.modify h fun obj => { obj with ptr := .failed } with mapped := some (call .failed) }
    | some i =>
      if MmapOk (s.mem obj.proc) len offset i then
        let s := { s with
          mem := update s.mem obj.proc
            (mapPages (s.mem obj.proc) i (pagesOf len) (.view i))
          views := ⟨obj.proc, i, len, h⟩ :: s.views
          mapped := some (call (.page i)) }
        let s := s.setFmData h obj { fmData with offset := offset, mappedSize := len }
        let s := s.addMapView obj.proc i h
        some (s.modify h fun obj => { obj with ptr := .page i })
      else none

/-- `~FileMapObject`, with no pointer, and the end of the handle. -/
def free (s : State π ν) (h : ℕ) (obj : Obj π ν) : State π ν :=
  { s with
    handles := update s.handles h none
    table := match obj.index with
      | none => s.table
      | some name =>
        let entry := s.table name
        update s.table name { entry with nRef := entry.nRef - 1 } }

/-- `CloseHandle` of a handle whose object has no pointer. -/
def closeNull (s : State π ν) (h : ℕ) : State π ν :=
  match s.handles h with
  | none => s
  | some obj =>
    if obj.nRef - 1 = 0 then free s h obj
    else s.modify h fun obj => { obj with nRef := obj.nRef - 1 }

/-- `removeMapView`; the object of the view has no pointer any more. -/
def removeMapView (s : State π ν) (p : π) (base : ℕ) : State π ν :=
  match s.m_fmviewMap p base with
  | none => s
  | some h =>
    let s := closeNull s h
    { s with m_fmviewMap :=
        update s.m_fmviewMap p (update (s.m_fmviewMap p) base none) }

/-- The ghost views without the one that is unmapped. -/
def State.forget (s : State π ν) (p : π) (base : ℕ) (ptr : Ptr) (size : ℕ) : State π ν :=
  { s with
    views := s.views.filter fun v => ¬ (v.proc = p ∧ v.base = base)
    unmapped := (s.views.find? fun v => v.proc = p ∧ v.base = base).map fun v => ⟨v, ptr, size⟩ }

/-- The part of `UnmapViewOfFile` under the lock of the object `fmObj`. -/
def State.unmapObj (s : State π ν) (p : π) (base h : ℕ) (fmObj : Obj π ν) : State π ν :=
  let fmData := s.fmData fmObj
  -- `assert(fmObj->ptr == lpBaseAddress)`
  let s := s.forget p base fmObj.ptr fmData.mappedSize
  let s := s.munmap p fmObj.ptr fmData.mappedSize
  let s := s.modify h fun obj => { obj with ptr := .null }
  s.setFmData h fmObj { fmData with mappedSize := 0 }

/-- `UnmapViewOfFile` in the process `p`. -/
def UnmapViewOfFile (s : State π ν) (p : π) (lpBaseAddress : Ptr) : State π ν :=
  match lpBaseAddress with
  | .page base =>
    match s.getViewHandle p (.page base) with
    | none => s
    | some h =>
      match s.handles h with
      | none => s
      | some fmObj => removeMapView (s.unmapObj p base h fmObj) p base
  -- `mmap` never gave these as the base of a view.
  | _ => s

/-- `CloseHandle` -/
def CloseHandle (s : State π ν) (h : ℕ) : State π ν :=
  match s.handles h with
  | none => s
  | some obj =>
    let s := s.modify h fun obj => { obj with nRef := obj.nRef - 1 }
    if obj.nRef - 1 = 0 then
      free (if obj.index ≠ none ∧ obj.ptr ≠ .null then UnmapViewOfFile s obj.proc obj.ptr else s)
        h obj
    else s

/-- The calls of a process, with handles that are its own and open, and what other code maps. -/
inductive Act (π ν : Type*)
  | create (p : π) (name : ν) (high low : UInt32)
  /-- `CreateFileMapping` of a file that is this long. -/
  | createFile (p : π) (size : ℕ)
  | openMapping (p : π) (name : ν)
  /-- `base` is the answer of `mmap`. -/
  | map (h : ℕ) (high low : UInt32) (n : UInt64) (base : Option ℕ)
  | unmap (p : π) (ptr : Ptr)
  | close (h : ℕ)
  | otherMap (p : π) (i : ℕ)
  | otherUnmap (p : π) (i : ℕ)
  deriving DecidableEq

/-- A number of two `DWORD`s. -/
def quadPart (high low : UInt32) : ℕ := high.toNat * 4294967296 + low.toNat

/-- The handle can be used. -/
def State.usable (s : State π ν) (h : ℕ) : Option (Obj π ν) :=
  (s.handles h).filter fun obj => obj.user

/-- One step. -/
def next (s : State π ν) : Act π ν → Option (State π ν)
  | .create p name high low => some (CreateFileMappingA s p name (quadPart high low))
  | .createFile p size =>
    if h : size < 9223372036854775808 then some (s.newHandle p none ⟨size, 0, 0, h⟩) else none
  | .openMapping p name => some (OpenFileMappingA s p name)
  | .map h high low n base =>
    match s.usable h with
    | none => none
    | some obj => MapViewOfFile s h obj (quadPart high low) n.toNat base
  | .unmap p ptr => some (UnmapViewOfFile s p ptr)
  | .close h =>
    match s.usable h with
    | none => none
    | some _ => some (CloseHandle (s.modify h fun obj => { obj with user := false }) h)
  | .otherMap p i =>
    if s.mem p i = none ∧ 0 < i then
      some { s with
        mem := update s.mem p (update (s.mem p) i (some .other))
        others := update s.others p (update (s.others p) i true) }
    else none
  | .otherUnmap p i =>
    if s.mem p i = some .other then
      some { s with
        mem := update s.mem p (update (s.mem p) i none)
        others := update s.others p (update (s.others p) i false) }
    else none

variable (π ν) in
/-- The mappings as a transition system. -/
def lts : LTS (State π ν) (Act π ν) := ⟨next⟩

/-- **Views are mapped and unmapped right.** -/
structure Sound (s : State π ν) : Prop where
  /-- What `MapViewOfFile` does not refuse with null is inside the mapping. -/
  inside : ∀ c ∈ s.mapped, c.ret ≠ .null → c.offset + c.length ≤ c.size
  /-- `munmap` was called with the range of the view that was asked for. -/
  exact : ∀ u ∈ s.unmapped, u.ptr = .page u.view.base ∧ pagesOf u.size = pagesOf u.view.len
  /-- The views that are not unmapped are where they were. -/
  kept : ∀ v ∈ s.views, ∀ i, v.base ≤ i ∧ i < v.base + pagesOf v.len →
    s.mem v.proc i = some (.view v.base)
  /-- Nothing is left of the others. -/
  gone : ∀ p i b, s.mem p i = some (.view b) →
    ∃ v ∈ s.views, v.proc = p ∧ v.base = b ∧ b ≤ i ∧ i < b + pagesOf v.len
  /-- The memory of other code is not touched. -/
  others : ∀ p i, s.mem p i = some .other ↔ s.others p i = true
  /-- The object of a view exists. -/
  owned : ∀ v ∈ s.views, ∃ obj, s.handles v.handle = some obj ∧ obj.proc = v.proc

/-- **The good steps.** -/
def Orderly (s : State π ν) : Act π ν → Prop
  /- The sum is refused or does not overflow. -/
  | .map h high low n _ => ∀ obj ∈ s.usable h,
    let sum := quadPart high low + n.toNat
    sum < 9223372036854775808 ∨
      18446744073709551616 + (s.fmData obj).size < sum ∧ sum < 27670116110564327424
  /- The object has stored this view last, and the size of no other one since. -/
  | .unmap p ptr => ∀ v ∈ s.views, v.proc = p → ptr = .page v.base → ∀ obj ∈ s.handles v.handle,
    obj.ptr = ptr ∧ pagesOf (s.fmData obj).mappedSize = pagesOf v.len
  | _ => True

end Mapping

end Swinx
