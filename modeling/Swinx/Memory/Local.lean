import Swinx.Memory.Heap

/-!
# Local memory

`LocalAlloc` gives a fixed block of the process heap, or a handle: the address of the second field
of a `local_header`, which is a block of its own and has the address of the memory.  A handle has
the second bit set, the address of a block has not.

Headers are kept by their handles, apart from the bytes of memory.

* `localAlloc`, `localReAlloc`, `localFree`, `localLock`, `localUnlock`, `localSize` — the functions
  of the code.
* `Call`, `step` — the calls of a program.
* `Ledger` — what the program has been given, and what it has asked for.
* `Correct` — what a call owes the program.
* `Allowed` — when it is correct.
-/

namespace Swinx

namespace Memory

open Function (update)

def LMEM_MOVEABLE : UInt32 := 0x0002

def LMEM_ZEROINIT : UInt32 := 0x0040

def LMEM_MODIFY : UInt32 := 0x0080

def LMEM_DISCARDABLE : UInt32 := 0x0F00

def MAGIC_LOCAL_USED : UInt16 := 0x5342

def LMEM_LOCKCOUNT : UInt8 := 255

/-- `HLOCAL_STORAGE` -/
def storage : ℕ := 16

/-- `sizeof(struct local_header)` -/
def sizeofHeader : ℕ := 12

def INT_MAX : ℕ := 2147483647

/-- `get_header`, as a block -/
def getHeader (hmem : ℕ) : ℕ := hmem - 2

/-- `get_handle` -/
def getHandle (header : ℕ) : ℕ := header + 2

/-- `is_pointer`: `!(hmem & 2)` -/
def isPointer (hmem : ℕ) : Bool := hmem / 2 % 2 = 0

def State.setHeader (s : State) (hmem : ℕ) (h : LocalHeader) : State :=
  { s with headers := update s.headers hmem h }

/-- `flags & flag` -/
def has (flags flag : UInt32) : Bool := flags &&& flag ≠ 0

section Code

variable (sys : System)

def heapFlags (flags : UInt32) : UInt32 := if has flags LMEM_ZEROINIT then HEAP_ZERO_MEMORY else 0

/-- `LocalAlloc` of a handle, with the header there -/
def localAllocStorage (s : State) (flags : UInt32) (size header : ℕ) : Option (State × ℕ) :=
  let hmem := getHandle header
  let s := s.setHeader hmem ⟨MAGIC_LOCAL_USED, (s.headers hmem).ptr, (flags >>> 8).toUInt8, 0⟩
  if size = 0 then some (s.setHeader hmem { s.headers hmem with ptr := 0 }, hmem)
  else
    match heapAlloc sys s sys.processHeap (heapFlags flags) (size + storage) with
    | none => none
    | some (s', ptr) =>
      if ptr = 0 then some ((heapFree sys s' sys.processHeap header).1, 0)
      else
        some ({ s'.setHeader hmem { s'.headers hmem with ptr := ptr + storage } with
          mem := put s'.mem ptr sizeofHandle (word hmem) }, hmem)

/-- `LocalAlloc` -/
def localAlloc (s : State) (flags : UInt32) (size : ℕ) : Option (State × ℕ) :=
  if has flags LMEM_MOVEABLE = false then
    heapAlloc sys s sys.processHeap (heapFlags flags) size
  else if INT_MAX - storage < size then some (s, 0)
  else
    match heapAlloc sys s sys.processHeap 0 sizeofHeader with
    | none => none
    | some (s', header) =>
      if header = 0 then some (s', 0) else localAllocStorage sys s' flags size header

/-- `LocalFree` -/
def localFree (s : State) (hmem : ℕ) : State × ℕ :=
  if isPointer hmem then
    let r := heapFree sys s sys.processHeap hmem
    (r.1, if r.2 then 0 else hmem)
  else
    let header := s.headers hmem
    if header.magic = MAGIC_LOCAL_USED then
      let s := s.setHeader hmem { header with magic := 0xdead }
      let r := if header.ptr = 0 then (s, true)
        else heapFree sys s sys.processHeap (header.ptr - storage)
      let r' := heapFree sys r.1 sys.processHeap (getHeader hmem)
      (r'.1, if r.2 && r'.2 then 0 else hmem)
    else (s, hmem)

/-- `LocalLock`, which reads a byte at a pointer -/
def localLock (s : State) (hmem : ℕ) : Option (State × ℕ) :=
  if isPointer hmem then
    if (s.blocks hmem).isSome then some (s, hmem) else none
  else
    let header := s.headers hmem
    if header.magic = MAGIC_LOCAL_USED then
      if header.ptr = 0 then some (s, 0)
      else if header.lock < LMEM_LOCKCOUNT then
        some (s.setHeader hmem { header with lock := header.lock + 1 }, header.ptr)
      else some (s, header.ptr)
    else some (s, 0)

/-- `LocalUnlock` -/
def localUnlock (s : State) (hmem : ℕ) : State × ℕ :=
  if isPointer hmem then (s, 1)
  else
    let header := s.headers hmem
    if header.magic = MAGIC_LOCAL_USED then
      if header.lock ≠ 0 then
        (s.setHeader hmem { header with lock := header.lock - 1 },
          if header.lock - 1 ≠ 0 then 1 else 0)
      else (s, 0)
    else (s, 0)

/-- `LocalSize`, narrowed to an `UINT` -/
def localSize (s : State) (hmem : ℕ) : ℕ :=
  (if isPointer hmem then heapSize sys s sys.processHeap hmem
  else
    let header := s.headers hmem
    if header.magic = MAGIC_LOCAL_USED ∧ header.ptr ≠ 0 then
      heapSize sys s sys.processHeap (header.ptr - storage) - storage
    else 0) % 4294967296

/-- The branches of `LocalReAlloc` that copy a fixed block into a handle -/
def copyToHandle (s : State) (hmem size copied : ℕ) (flags : UInt32) : Option (State × ℕ) :=
  match localAlloc sys s flags size with
  | none => none
  | some (s₁, ret) =>
    match localLock s₁ ret with
    | none => none
    | some (s₂, dst) =>
      let s₃ := { s₂ with mem := put s₂.mem dst copied fun i => s₂.mem (hmem + i) }
      let s₄ := (localUnlock s₃ ret).1
      some ((heapFree sys s₄ sys.processHeap hmem).1, ret)

/-- `LocalReAlloc` of a handle -/
def localReAllocHandle (s : State) (hmem size : ℕ) (flags : UInt32) : Option (State × ℕ) :=
  let header := s.headers hmem
  if size ≠ 0 then
    if size ≤ INT_MAX - storage then
      if header.ptr ≠ 0 then
        match heapReAlloc sys s sys.processHeap (heapFlags flags) (header.ptr - storage)
          (size + storage) with
        | none => none
        | some (s', ptr) =>
          if ptr = 0 then some (s', 0)
          else some (s'.setHeader hmem { header with ptr := ptr + storage }, hmem)
      else
        match heapAlloc sys s sys.processHeap (heapFlags flags) (size + storage) with
        | none => none
        | some (s', ptr) =>
          if ptr = 0 then some (s', 0)
          else
            some ({ s'.setHeader hmem { header with ptr := ptr + storage } with
              mem := put s'.mem ptr sizeofHandle (word hmem) }, hmem)
    else some (s, 0)
  else if header.lock = 0 then
    if header.ptr ≠ 0 then
      some ((heapFree sys s sys.processHeap (header.ptr - storage)).1.setHeader hmem
        { header with ptr := 0 }, hmem)
    else some (s, hmem)
  else some (s, 0)

/-- `LocalReAlloc` -/
def localReAlloc (s : State) (hmem size : ℕ) (flags : UInt32) : Option (State × ℕ) :=
  if has flags LMEM_MODIFY then
    if isPointer hmem ∧ has flags LMEM_MOVEABLE = true then
      if hmem = 0 then some (s, 0)
      else
        let size := heapSize sys s sys.processHeap hmem
        copyToHandle sys s hmem size size flags
    else if isPointer hmem = false ∧ has flags LMEM_DISCARDABLE = true then
      let header := s.headers hmem
      some (s.setHeader hmem
        { header with flags := header.flags ||| (LMEM_DISCARDABLE >>> 8).toUInt8 }, hmem)
    else some (s, 0)
  else if isPointer hmem then
    if has flags LMEM_MOVEABLE = false then
      heapReAlloc sys s sys.processHeap (heapFlags flags ||| HEAP_REALLOC_IN_PLACE_ONLY) hmem size
    else
      copyToHandle sys s hmem size (min (heapSize sys s sys.processHeap hmem) size) flags
  else localReAllocHandle sys s hmem size flags

/-- What a program does with its memory. -/
inductive Call
  | heapAlloc (hHeap : ℕ) (dwFlags : UInt32) (dwBytes : UInt64)
  | heapReAlloc (hHeap : ℕ) (dwFlags : UInt32) (lpMem : ℕ) (dwBytes : UInt64)
  | heapFree (hHeap lpMem : ℕ)
  | localAlloc (flags : UInt32) (size : UInt64)
  | localReAlloc (hmem : ℕ) (size : UInt64) (flags : UInt32)
  | localFree (hmem : ℕ)
  | localLock (hmem : ℕ)
  | localUnlock (hmem : ℕ)
  /-- A byte is written. -/
  | write (a : ℕ) (v : UInt8)

/-- What a call returns, and the state after it; `none` is undefined. -/
def step (s : State) : Call → Option (State × ℕ)
  | .heapAlloc hHeap dwFlags dwBytes => heapAlloc sys s hHeap dwFlags dwBytes.toNat
  | .heapReAlloc hHeap dwFlags lpMem dwBytes =>
    heapReAlloc sys s hHeap dwFlags lpMem dwBytes.toNat
  | .heapFree hHeap lpMem =>
    let r := heapFree sys s hHeap lpMem
    some (r.1, r.2.toNat)
  | .localAlloc flags size => localAlloc sys s flags size.toNat
  | .localReAlloc hmem size flags => localReAlloc sys s hmem size.toNat flags
  | .localFree hmem => some (localFree sys s hmem)
  | .localLock hmem => localLock s hmem
  | .localUnlock hmem => some (localUnlock s hmem)
  | .write a v => some ({ s with mem := put s.mem a 1 fun _ => v }, 1)

end Code

/-! ### What a program has been given -/

/-- A block or a handle, with the size that was last asked for, and how often it is locked. -/
structure Entry where
  heap : ℕ
  size : ℕ
  /-- It was asked for with `LocalAlloc` or `LocalReAlloc`. -/
  isLocal : Bool
  locks : ℕ
  /-- It was never locked more than 255 times. -/
  stayed : Bool

/-- Blocks by their address, and handles. -/
abbrev Ledger := ℕ → Option Entry

def Entry.lock (e : Entry) : Entry :=
  { e with locks := e.locks + 1, stayed := e.stayed && decide (e.locks + 1 ≤ 255) }

def Entry.unlock (e : Entry) : Entry := { e with locks := e.locks - 1 }

/-- The program keeps a record of its calls and of what they return. -/
def record (sys : System) (l : Ledger) (c : Call) (r : ℕ) : Ledger :=
  match c with
  | .heapAlloc hHeap _ dwBytes =>
    if r = 0 then l else update l r (some ⟨hHeap, dwBytes.toNat, false, 0, true⟩)
  | .heapReAlloc hHeap _ lpMem dwBytes =>
    if r = 0 then l
    else update (update l lpMem none) r
      (some ⟨hHeap, dwBytes.toNat, false, 0, true⟩)
  | .heapFree _ lpMem => if r = 0 then l else update l lpMem none
  | .localAlloc _ size =>
    if r = 0 then l
    else update l r (some ⟨sys.processHeap, size.toNat, true, 0, true⟩)
  | .localReAlloc hmem size flags =>
    if r = 0 then l
    else if isPointer hmem then
      update (update l hmem none) r
        ((l hmem).map fun e => ⟨sys.processHeap,
          if has flags LMEM_MODIFY then e.size else size.toNat, true, 0, true⟩)
    else if has flags LMEM_MODIFY then l
    else update l hmem ((l hmem).map fun e => { e with size := size.toNat })
  | .localFree hmem => if r = 0 then update l hmem none else l
  | .localLock hmem =>
    if r = 0 ∨ isPointer hmem = true then l
    else update l hmem ((l hmem).map Entry.lock)
  | .localUnlock hmem =>
    if isPointer hmem then l else update l hmem ((l hmem).map Entry.unlock)
  | .write _ _ => l

/-- Where the memory of a block or a handle is. -/
def address (s : State) (k : ℕ) : ℕ := if isPointer k then k else (s.headers k).ptr

/-- **What is owed in every state**: room for what was asked for, apart from all else; the sizes;
and the lock count, while it has stayed below 255. -/
structure Sound (sys : System) (s : State) (l : Ledger) : Prop where
  room : ∀ k e, l k = some e → 0 < e.size → ∃ p b, s.blocks p = some b ∧ p ≤ address s k ∧
    address s k + e.size ≤ p + b.allocSize
  apart : ∀ k k' e e', l k = some e → l k' = some e' → k ≠ k' → 0 < e.size → 0 < e'.size →
    address s k + e.size ≤ address s k' ∨ address s k' + e'.size ≤ address s k
  heapSize : ∀ k e, l k = some e → isPointer k = true → heapSize sys s e.heap k = e.size
  localSize : ∀ k e, l k = some e → e.isLocal = true → localSize sys s k = e.size
  locks : ∀ k e, l k = some e → isPointer k = false → e.stayed = true →
    (s.headers k).lock.toNat = e.locks

/-- A block or a handle has its memory where it was, and nothing in it has changed. -/
def Unchanged (s s' : State) (k : ℕ) (e : Entry) : Prop :=
  address s' k = address s k ∧ ∀ i < e.size, s'.mem (address s k + i) = s.mem (address s k + i)

/-- The block or the handle that a call is about, unless it is only locked. -/
def Touches (s : State) (k : ℕ) (e : Entry) : Call → Prop
  | .heapAlloc _ _ _ => False
  | .heapReAlloc _ _ lpMem _ => k = lpMem
  | .heapFree _ lpMem => k = lpMem
  | .localAlloc _ _ => False
  | .localReAlloc hmem _ _ => k = hmem
  | .localFree hmem => k = hmem
  | .localLock _ => False
  | .localUnlock _ => False
  | .write a _ => address s k ≤ a ∧ a < address s k + e.size

/-- A call reports that it has failed; `LocalUnlock` fails if the handle is not locked. -/
def Failed (s : State) (r : ℕ) : Call → Prop
  | .heapAlloc _ _ _ => r = 0
  | .heapReAlloc _ _ _ _ => r = 0
  | .heapFree _ _ => r = 0
  | .localAlloc _ _ => r = 0
  | .localReAlloc _ _ _ => r = 0
  | .localFree _ => r ≠ 0
  | .localLock _ => r = 0
  | .localUnlock hmem => isPointer hmem = false ∧ (s.headers hmem).lock = 0
  | .write _ _ => False

/-- A call is to give this size to this block or handle, with zeros in what is added. -/
def Resizes (k : ℕ) (e : Entry) (n : ℕ) (zero : Bool) : Call → Prop
  | .heapReAlloc _ dwFlags lpMem dwBytes =>
    k = lpMem ∧ n = dwBytes.toNat ∧ zero = zeroes dwFlags
  | .localReAlloc hmem size flags =>
    k = hmem ∧ n = (if has flags LMEM_MODIFY then e.size else size.toNat) ∧
      zero = has flags LMEM_ZEROINIT
  | _ => False

/-- A call is to leave this block where it is. -/
def InPlace (k : ℕ) : Call → Prop
  | .heapReAlloc _ dwFlags lpMem _ => k = lpMem ∧ has dwFlags HEAP_REALLOC_IN_PLACE_ONLY = true
  | .localReAlloc hmem _ flags =>
    k = hmem ∧ isPointer hmem = true ∧ has flags LMEM_MODIFY = false ∧
      has flags LMEM_MOVEABLE = false
  | _ => False

/-- **What a call owes the program** about contents. -/
structure Kept (s : State) (l : Ledger) (c : Call) (s' : State) (r : ℕ) : Prop where
  others : ∀ k e, l k = some e → ¬ Touches s k e c → Unchanged s s' k e
  failed : Failed s r c → s'.blocks = s.blocks ∧
    ∀ k e, l k = some e → s'.headers k = s.headers k ∧ Unchanged s s' k e
  resized : ∀ k e n zero, Resizes k e n zero c → l k = some e → r ≠ 0 →
    (∀ i < min e.size n, s'.mem (address s' r + i) = s.mem (address s k + i)) ∧
      (zero = true → ∀ i, e.size ≤ i → i < n → s'.mem (address s' r + i) = 0)
  inPlace : ∀ k, InPlace k c → (l k).isSome = true → r ≠ 0 → r = k

/-- **A call is correct**: it has a result, and leaves what it is to leave. -/
def Correct (sys : System) (w : Option (State × Ledger)) (c : Call) : Prop :=
  ∀ s l, w = some (s, l) → ∃ s' r, step sys s c = some (s', r) ∧ Kept s l c s' r ∧
    Sound sys s' (record sys l c r)

/-- The program passes what it has been given, or what is no block at all. -/
def Owned (sys : System) (s : State) (l : Ledger) : Call → Prop
  | .heapAlloc _ _ _ => True
  | .heapReAlloc _ _ lpMem _ => (l lpMem).isSome = true ∨ s.blocks lpMem = none
  | .heapFree _ lpMem => (l lpMem).isSome = true ∨ s.blocks lpMem = none
  | .localAlloc _ _ => True
  | .localReAlloc hmem _ flags =>
    if isPointer hmem ∧ has flags LMEM_MOVEABLE = true then
      (hmem = 0 ∧ has flags LMEM_MODIFY = true) ∨ ∃ e, l hmem = some e ∧ e.heap = sys.processHeap
    else if isPointer hmem then (l hmem).isSome = true ∨ s.blocks hmem = none
    else (l hmem).isSome = true
  | .localFree hmem =>
    (l hmem).isSome = true ∨ (isPointer hmem = true ∧ s.blocks hmem = none)
  | .localLock hmem => (l hmem).isSome = true
  | .localUnlock hmem => (l hmem).isSome = true ∨ isPointer hmem = true
  | .write a _ => ∃ k e, l k = some e ∧ address s k ≤ a ∧ a < address s k + e.size

/-- The system gives what `LocalAlloc` asks for a handle. -/
def Granted (sys : System) (s : State) (size : ℕ) : Prop :=
  size ≤ INT_MAX - storage ∧
    ∃ p content, sys.posixMemalign s.tick s.blocks (sys.bufLen sizeofHeader) = some (p, content) ∧
      (size = 0 ∨ sys.posixMemalign (s.tick + 1) (update s.blocks (p + sizeofHandle)
        (some ⟨sys.processHeap, sizeofHeader, sys.bufLen sizeofHeader - sizeofHandle⟩))
        (sys.bufLen (size + storage)) ≠ none)

/-- The system has no memory for a block of this size. -/
def Refused (sys : System) (s : State) (dwBytes : ℕ) : Prop :=
  sys.posixMemalign s.tick s.blocks (sys.bufLen dwBytes) = none

/-- An `UINT` holds the size. -/
def Short (size : ℕ) : Prop := size < 4294967296

/-- **The condition**: where there is memory, sizes do not wrap around, they fit an `UINT` where
`LocalSize` is to tell them, and a block that is to stay has room; and there is memory for a handle
that is to take the place of a block. -/
def Fits (sys : System) (s : State) : Call → Prop
  | .heapAlloc hHeap _ dwBytes =>
    sys.isHeap hHeap = true → Refused sys s dwBytes.toNat ∨ NoWrap sys dwBytes.toNat
  | .heapReAlloc hHeap dwFlags lpMem dwBytes => ∀ b, find sys s hHeap lpMem = some b →
    dwBytes.toNat ≤ b.allocSize ∨ Refused sys s dwBytes.toNat ∨
      (NoWrap sys dwBytes.toNat ∧ has dwFlags HEAP_REALLOC_IN_PLACE_ONLY = false)
  | .localAlloc flags size => has flags LMEM_MOVEABLE = false →
    Refused sys s size.toNat ∨ (NoWrap sys size.toNat ∧ Short size.toNat)
  | .localReAlloc hmem size flags =>
    isPointer hmem = true →
      if has flags LMEM_MODIFY then
        has flags LMEM_MOVEABLE = true → hmem ≠ 0 →
          Granted sys s (Memory.heapSize sys s sys.processHeap hmem)
      else if has flags LMEM_MOVEABLE then Granted sys s size.toNat
      else ∀ b, find sys s sys.processHeap hmem = some b →
        (size.toNat ≤ b.allocSize ∧ Short size.toNat) ∨
          (b.allocSize < size.toNat ∧ Refused sys s size.toNat)
  | _ => True

/-- The calls that are allowed for. -/
def Allowed (sys : System) (w : Option (State × Ledger)) (c : Call) : Prop :=
  ∀ s l, w = some (s, l) → Owned sys s l c ∧ Fits sys s c

end Memory

end Swinx
