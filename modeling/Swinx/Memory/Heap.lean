import Mathlib

/-!
# The heap

A heap is a list of blocks, each with the size that was asked for and the size that there is; the
memory of a block comes from `posix_memalign` in whole pages, with the handle of the heap in front.
The lists of all heaps are one map by address here.

What `posix_memalign` answers may depend on everything before, and it may fail at any point; that
what it gives away is free is a field of `System`.  A write outside of what was given away has no
result: `none`.

`FlushInstructionCache`, which makes blocks executable, and the last error are left out.

* `heapAlloc_spec`, `heapReAlloc_move` — what they give and what they leave alone.
-/

namespace Swinx

namespace Memory

open Function (update update_apply update_of_ne update_self)

/-- The number of addresses. -/
def addresses : ℕ := 18446744073709551616

def HEAP_ZERO_MEMORY : UInt32 := 0x08

def HEAP_REALLOC_IN_PLACE_ONLY : UInt32 := 0x10

/-- `sizeof(HANDLE)` -/
def sizeofHandle : ℕ := 8

/-- `MemBlock`, without its address, and its heap -/
structure MemBlock where
  heap : ℕ
  /-- What was asked for. -/
  len : ℕ
  /-- What there is. -/
  allocSize : ℕ

/-- `local_header` -/
structure LocalHeader where
  magic : UInt16
  /-- 0 is `NULL`. -/
  ptr : ℕ
  flags : UInt8
  lock : UInt8

structure State where
  mem : ℕ → UInt8
  /-- The blocks of all heaps, by `ptr`. -/
  blocks : ℕ → Option MemBlock
  /-- The header of a handle. -/
  headers : ℕ → LocalHeader
  /-- How often memory was asked for. -/
  tick : ℕ

/-- The memory that is taken by the block at `q`, with the handle in front of it, is apart from the
`n` bytes at `p`. -/
def Apart (p n q : ℕ) (b : MemBlock) : Prop := p + n + sizeofHandle ≤ q ∨ q + b.allocSize ≤ p

/-- What the system provides. -/
structure System where
  /-- `sysconf(_SC_PAGE_SIZE)` -/
  pageSize : ℕ
  page_pos : 0 < pageSize
  page_dvd : 16 ∣ pageSize
  page_lt : pageSize < 2147483648
  isHeap : ℕ → Bool
  /-- `GetProcessHeap()` -/
  processHeap : ℕ
  process_isHeap : isHeap processHeap = true
  /-- `posix_memalign`: the address, and what is there. -/
  posixMemalign : ℕ → (ℕ → Option MemBlock) → ℕ → Option (ℕ × (ℕ → UInt8))
  /-- It gives away whole pages that are free. -/
  memalign_free : ∀ {t bs n p c}, posixMemalign t bs n = some (p, c) →
    pageSize ∣ p ∧ 0 < p ∧ p + n ≤ addresses ∧ ∀ q b, bs q = some b → Apart p n q b

/-- `n` bytes are written at `a`. -/
def put (mem : ℕ → UInt8) (a n : ℕ) (f : ℕ → UInt8) : ℕ → UInt8 :=
  fun x => if a ≤ x ∧ x < a + n then f (x - a) else mem x

/-- The bytes of a word. -/
def word (v : ℕ) : ℕ → UInt8 := fun i => (v >>> (8 * i)).toUInt8

section Code

variable (sys : System)

/-- `bufLen` -/
def System.bufLen (dwBytes : ℕ) : ℕ :=
  (dwBytes + sizeofHandle + sys.pageSize - 1) % addresses / sys.pageSize * sys.pageSize

/-- Does `dwFlags` ask for zeros? -/
def zeroes (dwFlags : UInt32) : Bool := dwFlags &&& HEAP_ZERO_MEMORY ≠ 0

/-- `HeapAlloc` -/
def heapAlloc (s : State) (hHeap : ℕ) (dwFlags : UInt32) (dwBytes : ℕ) : Option (State × ℕ) :=
  if sys.isHeap hHeap = false then some (s, 0)
  else
    match sys.posixMemalign s.tick s.blocks (sys.bufLen dwBytes) with
    | none => some ({ s with tick := s.tick + 1 }, 0)
    | some (p, content) =>
      if sys.bufLen dwBytes < dwBytes + sizeofHandle then none
      else
        let ptr := p + sizeofHandle
        let allocSize := sys.bufLen dwBytes - sizeofHandle
        let mem := put s.mem p (sys.bufLen dwBytes) content
        let mem := put mem p sizeofHandle (word hHeap)
        let mem := if zeroes dwFlags then put mem ptr dwBytes fun _ => 0 else mem
        let mem := put mem (ptr + dwBytes) (allocSize - dwBytes) fun _ => 0
        some ({ s with
          mem := mem
          blocks := update s.blocks ptr (some ⟨hHeap, dwBytes, allocSize⟩)
          tick := s.tick + 1 }, ptr)

/-- The block of a heap at an address. -/
def find (s : State) (hHeap lpMem : ℕ) : Option MemBlock :=
  if sys.isHeap hHeap then (s.blocks lpMem).filter fun b => b.heap = hHeap else none

/-- `HeapFree` -/
def heapFree (s : State) (hHeap lpMem : ℕ) : State × Bool :=
  match find sys s hHeap lpMem with
  | none => (s, false)
  | some _ => ({ s with blocks := update s.blocks lpMem none }, true)

/-- `HeapReAlloc` -/
def heapReAlloc (s : State) (hHeap : ℕ) (dwFlags : UInt32) (lpMem dwBytes : ℕ) :
    Option (State × ℕ) :=
  match find sys s hHeap lpMem with
  | none => some (s, 0)
  | some b =>
    if dwBytes ≤ b.allocSize then
      let mem := if b.len < dwBytes ∧ zeroes dwFlags = true then
        put s.mem (lpMem + b.len) (dwBytes - b.len) fun _ => 0 else s.mem
      some ({ s with
        mem := mem
        blocks := update s.blocks lpMem (some { b with len := dwBytes }) }, lpMem)
    else
      match sys.posixMemalign s.tick s.blocks (sys.bufLen dwBytes) with
      | none => some ({ s with tick := s.tick + 1 }, 0)
      | some (p, content) =>
        if sys.bufLen dwBytes < sizeofHandle ∨
            (zeroes dwFlags = true ∧ sys.bufLen dwBytes < dwBytes + sizeofHandle) ∨
            sys.bufLen dwBytes < min b.len dwBytes + sizeofHandle then none
        else
          let ptr := p + sizeofHandle
          let mem := put s.mem p (sys.bufLen dwBytes) content
          let mem := put mem p sizeofHandle (word hHeap)
          let mem := if zeroes dwFlags then put mem ptr dwBytes fun _ => 0 else mem
          let mem := put mem ptr (min b.len dwBytes) fun i => mem (lpMem + i)
          some ({ s with
            mem := mem
            blocks := update (update s.blocks lpMem none) ptr
              (some ⟨hHeap, dwBytes, sys.bufLen dwBytes - sizeofHandle⟩)
            tick := s.tick + 1 }, ptr)

/-- `HeapSize` -/
def heapSize (s : State) (hHeap lpMem : ℕ) : ℕ := ((find sys s hHeap lpMem).map MemBlock.len).getD 0

end Code

/-! ### Blocks that are apart -/

/-- **The blocks of a state** are aligned, large enough, and apart from each other. -/
structure BlocksOK (s : State) : Prop where
  /-- The handle is in front. -/
  aligned : ∀ p b, s.blocks p = some b → p % 16 = 8 ∧ 8 < p
  /-- There is room for what was asked for. -/
  large : ∀ p b, s.blocks p = some b → b.len ≤ b.allocSize
  inside : ∀ p b, s.blocks p = some b → p + b.allocSize ≤ addresses
  /-- Blocks do not overlap. -/
  apart : ∀ p q b c, s.blocks p = some b → s.blocks q = some c → p ≠ q →
    p + b.allocSize + sizeofHandle ≤ q ∨ q + c.allocSize + sizeofHandle ≤ p

theorem put_of_lt {mem : ℕ → UInt8} {a n i : ℕ} {f : ℕ → UInt8} (h : i < n) :
    put mem a n f (a + i) = f i := by
  unfold put
  rw [if_pos ⟨by omega, by omega⟩, Nat.add_sub_cancel_left]

theorem put_of_not {mem : ℕ → UInt8} {a n x : ℕ} {f : ℕ → UInt8} (h : ¬ (a ≤ x ∧ x < a + n)) :
    put mem a n f x = mem x := if_neg h

/-- The size of the pages does not wrap around. -/
def NoWrap (sys : System) (dwBytes : ℕ) : Prop :=
  dwBytes + sizeofHandle + sys.pageSize - 1 < addresses

theorem le_bufLen {sys : System} {dwBytes : ℕ} (h : NoWrap sys dwBytes) :
    dwBytes + sizeofHandle ≤ sys.bufLen dwBytes := by
  unfold System.bufLen
  rw [Nat.mod_eq_of_lt h]
  have hpos := sys.page_pos
  have hdiv := Nat.div_add_mod (dwBytes + sizeofHandle + sys.pageSize - 1) sys.pageSize
  have hlt := Nat.mod_lt (dwBytes + sizeofHandle + sys.pageSize - 1) hpos
  rw [Nat.mul_comm] at hdiv
  omega

/-- The block at `q` is the same, and so is what is in it. -/
def Keeps (s s' : State) (q : ℕ) (c : MemBlock) : Prop :=
  s'.blocks q = some c ∧ ∀ i < c.allocSize, s'.mem (q + i) = s.mem (q + i)

/-- **A new block** at `r`, and what is left alone when it is made. -/
structure Grown (s s' : State) (r : ℕ) (b : MemBlock) : Prop where
  ok : BlocksOK s'
  fresh : s.blocks r = none
  /-- The new block is `b`. -/
  block : s'.blocks r = some b
  others : ∀ q, q ≠ r → s'.blocks q = s.blocks q
  /-- The bytes of the others stay. -/
  keeps : ∀ q c, s.blocks q = some c → Keeps s s' q c
  headers : s'.headers = s.headers

/-- **The block at `p` is at `r` now**, with another size. -/
structure Resized (s s' : State) (p r : ℕ) (b : MemBlock) (dwFlags : UInt32) (dwBytes : ℕ) :
    Prop where
  ok : BlocksOK s'
  fresh : r ≠ p → s.blocks r = none
  block : ∃ c, s'.blocks r = some c ∧ c.heap = b.heap ∧ c.len = dwBytes
  old : r ≠ p → s'.blocks p = none
  others : ∀ q, q ≠ p → q ≠ r → s'.blocks q = s.blocks q
  keeps : ∀ q c, s.blocks q = some c → q ≠ p → Keeps s s' q c
  headers : s'.headers = s.headers
  /-- The bytes go along. -/
  kept : ∀ i < min b.len dwBytes, s'.mem (r + i) = s.mem (p + i)
  /-- The rest is zero, if asked for. -/
  zero : zeroes dwFlags = true → ∀ i, b.len ≤ i → i < dwBytes → s'.mem (r + i) = 0

section Specs

variable {sys : System} {s : State}

theorem find_eq_some_iff {hHeap lpMem : ℕ} {b : MemBlock} :
    find sys s hHeap lpMem = some b ↔
      sys.isHeap hHeap = true ∧ s.blocks lpMem = some b ∧ b.heap = hHeap := by
  unfold find
  split_ifs with h
  · rw [Option.filter_eq_some_iff]
    simp [h]
  · simp [h]

theorem memalign_block {n p : ℕ} {content : ℕ → UInt8}
    (h : sys.posixMemalign s.tick s.blocks n = some (p, content)) (hn : sizeofHandle ≤ n) :
    ((p + sizeofHandle) % 16 = 8 ∧ 8 < p + sizeofHandle) ∧
      p + sizeofHandle + (n - sizeofHandle) ≤ addresses ∧
      ∀ q c, s.blocks q = some c → p + sizeofHandle + (n - sizeofHandle) + sizeofHandle ≤ q ∨
        q + c.allocSize + sizeofHandle ≤ p + sizeofHandle := by
  obtain ⟨hdvd, hpos, hinside, hfree⟩ := sys.memalign_free h
  obtain ⟨k, rfl⟩ := sys.page_dvd.trans hdvd
  unfold sizeofHandle at *
  refine ⟨⟨by omega, by omega⟩, by omega, fun q c hq => ?_⟩
  have := hfree q c hq
  unfold Apart sizeofHandle at this
  omega

theorem keeps_of_mem {s' : State} {n p : ℕ} {content : ℕ → UInt8}
    (h : sys.posixMemalign s.tick s.blocks n = some (p, content))
    (hmem : ∀ x, ¬ (p ≤ x ∧ x < p + n) → s'.mem x = s.mem x) {q : ℕ} {c : MemBlock}
    (hq : s.blocks q = some c) {i : ℕ} (hi : i < c.allocSize) :
    s'.mem (q + i) = s.mem (q + i) := by
  refine hmem _ ?_
  have := (sys.memalign_free h).2.2.2 q c hq
  unfold Apart sizeofHandle at this
  omega

theorem blocksOK_update (hs : BlocksOK s) {s' : State} {r : ℕ} {b : MemBlock}
    (hblocks : ∀ q, q ≠ r → s'.blocks q = s.blocks q ∨ s'.blocks q = none)
    (hb : s'.blocks r = some b) (haligned : r % 16 = 8 ∧ 8 < r) (hlarge : b.len ≤ b.allocSize)
    (hinside : r + b.allocSize ≤ addresses)
    (hapart : ∀ q c, s.blocks q = some c → q ≠ r → r + b.allocSize + sizeofHandle ≤ q ∨
      q + c.allocSize + sizeofHandle ≤ r) : BlocksOK s' := by
  have hcases : ∀ {q c}, s'.blocks q = some c →
      (q = r ∧ c = b) ∨ (q ≠ r ∧ s.blocks q = some c) := by
    intro q c hq
    rcases eq_or_ne q r with rfl | hne
    · exact .inl ⟨rfl, Option.some.inj (hq.symm.trans hb)⟩
    · rcases hblocks q hne with h | h
      · exact .inr ⟨hne, h ▸ hq⟩
      · rw [h] at hq
        cases hq
  refine ⟨fun q c hq => ?_, fun q c hq => ?_, fun q c hq => ?_, fun q q' c d hq hq' hne => ?_⟩
  · rcases hcases hq with ⟨rfl, rfl⟩ | ⟨-, hq⟩
    · exact haligned
    · exact hs.aligned q c hq
  · rcases hcases hq with ⟨rfl, rfl⟩ | ⟨-, hq⟩
    · exact hlarge
    · exact hs.large q c hq
  · rcases hcases hq with ⟨rfl, rfl⟩ | ⟨-, hq⟩
    · exact hinside
    · exact hs.inside q c hq
  · rcases hcases hq with ⟨rfl, rfl⟩ | ⟨hqr, hq⟩
    · rcases hcases hq' with ⟨rfl, -⟩ | ⟨hqr', hq'⟩
      · exact absurd rfl hne
      · exact hapart q' d hq' hqr'
    · rcases hcases hq' with ⟨rfl, rfl⟩ | ⟨-, hq'⟩
      · exact (hapart q c hq hqr).symm
      · exact hs.apart q q' c d hq hq' hne

theorem heapAlloc_of_none {hHeap dwBytes : ℕ} (hheap : sys.isHeap hHeap = true)
    (hnone : sys.posixMemalign s.tick s.blocks (sys.bufLen dwBytes) = none) (dwFlags : UInt32) :
    heapAlloc sys s hHeap dwFlags dwBytes = some ({ s with tick := s.tick + 1 }, 0) := by
  unfold heapAlloc
  rw [if_neg (by simp [hheap]), hnone]

/-- **What `HeapAlloc` gives.** -/
theorem heapAlloc_spec (hs : BlocksOK s) {hHeap dwBytes : ℕ} (hheap : sys.isHeap hHeap = true)
    (hwrap : NoWrap sys dwBytes) (dwFlags : UInt32) :
    (sys.posixMemalign s.tick s.blocks (sys.bufLen dwBytes) = none ∧
        heapAlloc sys s hHeap dwFlags dwBytes = some ({ s with tick := s.tick + 1 }, 0)) ∨
      ∃ s' r, heapAlloc sys s hHeap dwFlags dwBytes = some (s', r) ∧
        (∃ p content, sys.posixMemalign s.tick s.blocks (sys.bufLen dwBytes) = some (p, content) ∧
          r = p + sizeofHandle ∧ s'.blocks = update s.blocks r
            (some ⟨hHeap, dwBytes, sys.bufLen dwBytes - sizeofHandle⟩)) ∧
        s'.tick = s.tick + 1 ∧
        Grown s s' r ⟨hHeap, dwBytes, sys.bufLen dwBytes - sizeofHandle⟩ ∧
        (zeroes dwFlags = true → ∀ i < dwBytes, s'.mem (r + i) = 0) := by
  have hbuf := le_bufLen hwrap
  cases hanswer : sys.posixMemalign s.tick s.blocks (sys.bufLen dwBytes) with
  | none => exact .inl ⟨rfl, heapAlloc_of_none hheap hanswer dwFlags⟩
  | some a =>
    unfold heapAlloc
    rw [if_neg (by simp [hheap]), hanswer]
    obtain ⟨p, content⟩ := a
    obtain ⟨haligned, hinside, hapart⟩ := memalign_block hanswer (by omega)
    right
    simp only [if_neg (not_lt.2 hbuf)]
    refine ⟨_, _, rfl, ⟨p, content, rfl, rfl, rfl⟩, rfl, ⟨?_, ?_, ?_, ?_, ?_, rfl⟩, ?_⟩
    · refine blocksOK_update hs (fun q hq => .inl (update_of_ne hq _ _))
        (update_self _ _ _) haligned ?_ hinside fun q c hq _ => hapart q c hq
      simp only
      omega
    · cases hp : s.blocks (p + sizeofHandle) with
      | none => rfl
      | some c =>
        have := hapart _ c hp
        unfold sizeofHandle at this
        omega
    · exact update_self _ _ _
    · exact fun q hq => update_of_ne hq _ _
    · intro q c hq
      have hne : q ≠ p + sizeofHandle := by
        rintro rfl
        have := hapart _ c hq
        unfold sizeofHandle at this
        omega
      refine ⟨(update_of_ne hne _ _).trans hq, fun i hi => ?_⟩
      refine keeps_of_mem hanswer (fun x hx => ?_) hq hi
      simp only
      rw [put_of_not (by omega)]
      split_ifs
      · rw [put_of_not (by omega), put_of_not (by unfold sizeofHandle at *; omega), put_of_not hx]
      · rw [put_of_not (by unfold sizeofHandle at *; omega), put_of_not hx]
    · intro hzero i hi
      simp only [hzero, if_true]
      rw [put_of_not (by omega), put_of_lt hi]

/-- **The block at `p` is gone.** -/
structure Freed (s s' : State) (p : ℕ) : Prop where
  ok : BlocksOK s'
  gone : s'.blocks p = none
  others : ∀ q, q ≠ p → s'.blocks q = s.blocks q
  mem : s'.mem = s.mem
  headers : s'.headers = s.headers

theorem blocksOK_of_subset (hs : BlocksOK s) {s' : State}
    (h : ∀ q c, s'.blocks q = some c → s.blocks q = some c) : BlocksOK s' :=
  ⟨fun q c hq => hs.aligned q c (h q c hq), fun q c hq => hs.large q c (h q c hq),
    fun q c hq => hs.inside q c (h q c hq),
    fun q r c d hq hr => hs.apart q r c d (h q c hq) (h r d hr)⟩

/-- **What `HeapFree` does.** -/
theorem heapFree_spec (hs : BlocksOK s) {hHeap lpMem : ℕ} {b : MemBlock}
    (h : find sys s hHeap lpMem = some b) :
    ∃ s', heapFree sys s hHeap lpMem = (s', true) ∧ s'.tick = s.tick ∧ Freed s s' lpMem := by
  refine ⟨{ s with blocks := update s.blocks lpMem none }, by simp only [heapFree, h], rfl,
    ?_, update_self _ _ _, fun q hq => update_of_ne hq _ _, rfl, rfl⟩
  refine blocksOK_of_subset hs fun q c hq => ?_
  simp only [update_apply] at hq
  split_ifs at hq
  exact hq

theorem heapFree_of_find_none {hHeap lpMem : ℕ} (h : find sys s hHeap lpMem = none) :
    heapFree sys s hHeap lpMem = (s, false) := by
  simp only [heapFree, h]

theorem heapReAlloc_of_find_none {hHeap lpMem dwBytes : ℕ} {dwFlags : UInt32}
    (h : find sys s hHeap lpMem = none) :
    heapReAlloc sys s hHeap dwFlags lpMem dwBytes = some (s, 0) := by
  simp only [heapReAlloc, h]

theorem heapReAlloc_in_place (hs : BlocksOK s) {hHeap lpMem dwBytes : ℕ} {b : MemBlock}
    (h : find sys s hHeap lpMem = some b) (dwFlags : UInt32) (hroom : dwBytes ≤ b.allocSize) :
    ∃ s', heapReAlloc sys s hHeap dwFlags lpMem dwBytes = some (s', lpMem) ∧
      s'.tick = s.tick ∧ Resized s s' lpMem lpMem b dwFlags dwBytes := by
  obtain ⟨-, hb, hheap⟩ := find_eq_some_iff.1 h
  have hlarge := hs.large lpMem b hb
  simp only [heapReAlloc, h, if_pos hroom]
  refine ⟨_, rfl, rfl, ⟨?_, fun hne => absurd rfl hne, ⟨_, update_self _ _ _, rfl, rfl⟩,
    fun hne => absurd rfl hne, fun q hq _ => update_of_ne hq _ _, ?_, rfl, ?_, ?_⟩⟩
  · refine blocksOK_update hs (fun q hq => .inl (update_of_ne hq _ _))
      (update_self _ _ _) (hs.aligned lpMem b hb) hroom (hs.inside lpMem b hb) ?_
    exact fun q c hq hne => hs.apart lpMem q b c hb hq hne.symm
  · intro q c hq hne
    refine ⟨(update_of_ne hne _ _).trans hq, fun i hi => ?_⟩
    have := hs.apart q lpMem c b hq hb hne
    simp only
    split_ifs with hgrow
    · rw [put_of_not (by unfold sizeofHandle at this; omega)]
    · rfl
  · intro i hi
    simp only
    split_ifs with hgrow
    · rw [put_of_not (by omega)]
    · rfl
  · intro hzero i hlo hhi
    simp only [if_pos (show b.len < dwBytes ∧ zeroes dwFlags = true from ⟨by omega, hzero⟩)]
    obtain ⟨k, rfl⟩ := Nat.exists_eq_add_of_le hlo
    rw [← Nat.add_assoc, put_of_lt (by omega)]

theorem heapReAlloc_of_none {hHeap lpMem dwBytes : ℕ} {b : MemBlock}
    (h : find sys s hHeap lpMem = some b) (dwFlags : UInt32) (hroom : ¬ dwBytes ≤ b.allocSize)
    (hnone : sys.posixMemalign s.tick s.blocks (sys.bufLen dwBytes) = none) :
    heapReAlloc sys s hHeap dwFlags lpMem dwBytes = some ({ s with tick := s.tick + 1 }, 0) := by
  simp only [heapReAlloc, h, if_neg hroom, hnone]

theorem heapReAlloc_move (hs : BlocksOK s) {hHeap lpMem dwBytes : ℕ} {b : MemBlock}
    (h : find sys s hHeap lpMem = some b) (dwFlags : UInt32) (hroom : ¬ dwBytes ≤ b.allocSize)
    (hwrap : NoWrap sys dwBytes) :
    (sys.posixMemalign s.tick s.blocks (sys.bufLen dwBytes) = none ∧
        heapReAlloc sys s hHeap dwFlags lpMem dwBytes = some ({ s with tick := s.tick + 1 }, 0)) ∨
      ∃ s' r, heapReAlloc sys s hHeap dwFlags lpMem dwBytes = some (s', r) ∧
        sys.posixMemalign s.tick s.blocks (sys.bufLen dwBytes) ≠ none ∧ r ≠ lpMem ∧
        s'.tick = s.tick + 1 ∧ Resized s s' lpMem r b dwFlags dwBytes := by
  have hbuf := le_bufLen hwrap
  obtain ⟨-, hb, hheap⟩ := find_eq_some_iff.1 h
  have hlarge := hs.large lpMem b hb
  cases hanswer : sys.posixMemalign s.tick s.blocks (sys.bufLen dwBytes) with
  | none => exact .inl ⟨rfl, heapReAlloc_of_none h dwFlags hroom hanswer⟩
  | some a =>
    simp only [heapReAlloc, h, if_neg hroom, hanswer]
    obtain ⟨p, content⟩ := a
    obtain ⟨haligned, hinside, hapart⟩ := memalign_block hanswer (by omega)
    have hold := hapart lpMem b hb
    have hne : p + sizeofHandle ≠ lpMem := by
      unfold sizeofHandle at hold ⊢
      omega
    right
    simp only
    rw [if_neg (by omega)]
    -- What is written is in the new memory.
    have hmem : ∀ x, ¬ (p ≤ x ∧ x < p + sys.bufLen dwBytes) →
        (if zeroes dwFlags = true then
          put (put (put s.mem p (sys.bufLen dwBytes) content) p sizeofHandle (word hHeap))
            (p + sizeofHandle) dwBytes fun _ => 0
        else put (put s.mem p (sys.bufLen dwBytes) content) p sizeofHandle (word hHeap)) x =
          s.mem x := by
      intro x hx
      unfold sizeofHandle at *
      split_ifs
      · rw [put_of_not (by omega), put_of_not (by omega), put_of_not hx]
      · rw [put_of_not (by omega), put_of_not hx]
    refine ⟨_, _, rfl, Option.some_ne_none _, hne, rfl, ⟨?_, fun _ => ?_,
      ⟨_, update_self _ _ _, hheap.symm, rfl⟩, fun hne' => ?_, fun q hq hq' => ?_, ?_, rfl,
      ?_, ?_⟩⟩
    · refine blocksOK_update hs (fun q hq => ?_) (update_self _ _ _) haligned ?_ hinside
        fun q c hq _ => hapart q c hq
      · simp only [update_of_ne hq, update_apply]
        split_ifs
        · exact .inr rfl
        · exact .inl rfl
      · simp only
        omega
    · cases hp : s.blocks (p + sizeofHandle) with
      | none => rfl
      | some c =>
        have := hapart _ c hp
        unfold sizeofHandle at this
        omega
    · simp only [update_of_ne hne'.symm, update_self]
    · simp only [update_of_ne hq', update_of_ne hq]
    · intro q c hq hql
      have hqp : q ≠ p + sizeofHandle := by
        rintro rfl
        have := hapart _ c hq
        unfold sizeofHandle at this
        omega
      refine ⟨by simp only [update_of_ne hqp, update_of_ne hql, hq],
        fun i hi => ?_⟩
      refine keeps_of_mem hanswer (fun x hx => ?_) hq hi
      simp only
      rw [put_of_not (by omega), hmem x hx]
    · intro i hi
      simp only
      rw [put_of_lt hi, hmem]
      omega
    · intro hzero i hlo hhi
      simp only [hzero, if_true]
      rw [put_of_not (by omega), put_of_lt hhi]

end Specs

end Memory

end Swinx
