import Swinx.Memory.Local

/-!
# Blocks and handles

Every block or handle that a program has been given is represented by blocks of the heap that no
other one uses.  A call changes what one of them is represented by, and leaves all others alone.

* `Inv.sound` — the invariant is what is owed.
* `correct_heapAlloc`, `correct_heapReAlloc`, `correct_heapFree`, `correct_localAlloc`,
  `correct_localFree`, `correct_localLock`, `correct_localUnlock`, `correct_write` — the calls that
  give what they owe, and the invariant after them.
-/

namespace Swinx

namespace Memory

/-! ### Representation -/

/-- A block that the program has been given. -/
def FixedRep (sys : System) (s : State) (k : ℕ) (e : Entry) : Prop :=
  sys.isHeap e.heap = true ∧ ∃ b, s.blocks k = some b ∧ b.heap = e.heap ∧ b.len = e.size

/-- The memory of a handle. -/
def StorageRep (sys : System) (s : State) (ptr size : ℕ) : Prop :=
  (ptr = 0 ∧ size = 0) ∨ (storage < ptr ∧ 0 < size ∧ size ≤ INT_MAX - storage ∧
    ∃ b, s.blocks (ptr - storage) = some b ∧ b.heap = sys.processHeap ∧ b.len = size + storage)

/-- A handle that the program has been given. -/
structure HandleRep (sys : System) (s : State) (k : ℕ) (e : Entry) : Prop where
  heap : e.heap = sys.processHeap
  header : ∃ b, s.blocks (getHeader k) = some b ∧ b.heap = sys.processHeap ∧ b.len = sizeofHeader
  two_le : 2 ≤ k
  magic : (s.headers k).magic = MAGIC_LOCAL_USED
  memory : StorageRep sys s (s.headers k).ptr e.size
  locks : e.stayed = true → (s.headers k).lock.toNat = e.locks

def Rep (sys : System) (s : State) (k : ℕ) (e : Entry) : Prop :=
  (e.isLocal = true → Short e.size ∧ e.heap = sys.processHeap) ∧
    if isPointer k then FixedRep sys s k e else HandleRep sys s k e

/-- The blocks that represent a block or a handle. -/
def Uses (s : State) (k q : ℕ) : Prop :=
  if isPointer k then q = k
  else q = getHeader k ∨ ((s.headers k).ptr ≠ 0 ∧ q = (s.headers k).ptr - storage)

/-- **The invariant** -/
structure Inv (sys : System) (s : State) (l : Ledger) : Prop where
  ok : BlocksOK s
  rep : ∀ k e, l k = some e → Rep sys s k e
  apart : ∀ k k' e e', l k = some e → l k' = some e' → k ≠ k' → ∀ q, Uses s k q → ¬ Uses s k' q

/-- The blocks that represent it and its header are left alone. -/
structure Stays (s s' : State) (k : ℕ) : Prop where
  headers : s'.headers k = s.headers k
  keeps : ∀ q, Uses s k q → ∀ c, s.blocks q = some c → Keeps s s' q c

section Rep

variable {sys : System} {s s' s'' : State} {l l' : Ledger} {k q : ℕ} {e : Entry}

theorem Keeps.refl {c : MemBlock} (h : s.blocks q = some c) : Keeps s s q c := ⟨h, fun _ _ => rfl⟩

theorem Stays.refl (s : State) (k : ℕ) : Stays s s k := ⟨rfl, fun _ _ _ h => Keeps.refl h⟩

theorem uses_congr (h : s'.headers k = s.headers k) : Uses s' k q ↔ Uses s k q := by
  unfold Uses
  rw [h]

theorem Stays.trans (h : Stays s s' k) (h' : Stays s' s'' k) : Stays s s'' k := by
  refine ⟨h'.headers.trans h.headers, fun q hq c hc => ?_⟩
  have hfirst := h.keeps q hq c hc
  have hsecond := h'.keeps q ((uses_congr h.headers).2 hq) c hfirst.1
  exact ⟨hsecond.1, fun i hi => (hsecond.2 i hi).trans (hfirst.2 i hi)⟩

theorem isPointer_of_aligned (h : k % 16 = 8) : isPointer k = true := by
  unfold isPointer
  simp only [decide_eq_true_eq]
  omega

theorem isPointer_getHandle (h : k % 16 = 8) : isPointer (getHandle k) = false := by
  unfold isPointer getHandle
  simp only [decide_eq_false_iff_not]
  omega

theorem Rep.fixed (h : Rep sys s k e) (hk : isPointer k = true) : FixedRep sys s k e := by
  have := h.2
  rwa [if_pos hk] at this

theorem Rep.handle (h : Rep sys s k e) (hk : isPointer k = false) : HandleRep sys s k e := by
  have := h.2
  rwa [if_neg (by simp [hk])] at this

theorem uses_fixed (hk : isPointer k = true) : Uses s k q ↔ q = k := by
  unfold Uses
  rw [if_pos hk]

theorem uses_handle (hk : isPointer k = false) :
    Uses s k q ↔ q = getHeader k ∨ ((s.headers k).ptr ≠ 0 ∧ q = (s.headers k).ptr - storage) := by
  unfold Uses
  rw [if_neg (by simp [hk])]

/-- **What represents a block or a handle are blocks.** -/
theorem Rep.block_of_uses (h : Rep sys s k e) (hq : Uses s k q) : ∃ b, s.blocks q = some b := by
  cases hk : isPointer k with
  | true =>
    obtain rfl := (uses_fixed hk).1 hq
    obtain ⟨-, b, hb, -⟩ := h.fixed hk
    exact ⟨b, hb⟩
  | false =>
    have hrep := h.handle hk
    rcases (uses_handle hk).1 hq with rfl | ⟨hptr, rfl⟩
    · obtain ⟨b, hb, -⟩ := hrep.header
      exact ⟨b, hb⟩
    · rcases hrep.memory with ⟨hzero, -⟩ | ⟨-, -, -, b, hb, -⟩
      · exact absurd hzero hptr
      · exact ⟨b, hb⟩

theorem StorageRep.congr {ptr size : ℕ} (h : StorageRep sys s ptr size)
    (hb : ptr ≠ 0 → s'.blocks (ptr - storage) = s.blocks (ptr - storage)) :
    StorageRep sys s' ptr size := by
  rcases h with h | ⟨hlt, hpos, hle, b, hblock, hheap, hlen⟩
  · exact .inl h
  · exact .inr ⟨hlt, hpos, hle, b, (hb (by omega)).trans hblock, hheap, hlen⟩

theorem Rep.congr (h : Rep sys s k e) (hheaders : s'.headers k = s.headers k)
    (hblocks : ∀ q, Uses s k q → s'.blocks q = s.blocks q) : Rep sys s' k e := by
  refine ⟨h.1, ?_⟩
  split_ifs with hk
  · obtain ⟨hheap, b, hb, hrest⟩ := h.fixed hk
    exact ⟨hheap, b, (hblocks k ((uses_fixed hk).2 rfl)).trans hb, hrest⟩
  · rw [Bool.not_eq_true] at hk
    have hrep := h.handle hk
    obtain ⟨b, hb, hrest⟩ := hrep.header
    refine ⟨hrep.heap, ⟨b, ?_, hrest⟩, hrep.two_le, ?_, ?_, ?_⟩
    · exact (hblocks _ ((uses_handle hk).2 (.inl rfl))).trans hb
    · rw [hheaders]
      exact hrep.magic
    · rw [hheaders]
      exact hrep.memory.congr fun hptr => hblocks _ ((uses_handle hk).2 (.inr ⟨hptr, rfl⟩))
    · rw [hheaders]
      exact hrep.locks

/-- **What stays is represented as before.** -/
theorem Rep.stays (h : Rep sys s k e) (hs : Stays s s' k) : Rep sys s' k e := by
  refine h.congr hs.headers fun q hq => ?_
  obtain ⟨b, hb⟩ := h.block_of_uses hq
  exact (hs.keeps q hq b hb).1.trans hb.symm

/-- The memory of a block or a handle is in one of the blocks that represent it. -/
theorem Rep.room (h : Rep sys s k e) (hok : BlocksOK s) (hpos : 0 < e.size) :
    ∃ q b, Uses s k q ∧ s.blocks q = some b ∧ q ≤ address s k ∧
      address s k + e.size ≤ q + b.allocSize := by
  unfold address
  cases hk : isPointer k with
  | true =>
    obtain ⟨-, b, hb, -, hlen⟩ := h.fixed hk
    refine ⟨k, b, (uses_fixed hk).2 rfl, hb, le_rfl, ?_⟩
    have := hok.large k b hb
    simp only [if_true]
    omega
  | false =>
    have hrep := h.handle hk
    rcases hrep.memory with ⟨-, hzero⟩ | ⟨hlt, -, -, b, hb, -, hlen⟩
    · omega
    · have := hok.large _ b hb
      refine ⟨_, b, (uses_handle hk).2 (.inr ⟨by omega, rfl⟩), hb, ?_, ?_⟩ <;>
        simp only [Bool.false_eq_true, if_false] <;> omega

theorem address_congr (h : s'.headers k = s.headers k) : address s' k = address s k := by
  unfold address
  rw [h]

/-- **What stays is unchanged.** -/
theorem Rep.unchanged (h : Rep sys s k e) (hok : BlocksOK s) (hs : Stays s s' k) :
    Unchanged s s' k e := by
  refine ⟨address_congr hs.headers, fun i hi => ?_⟩
  obtain ⟨q, b, hq, hb, hle, hroom⟩ := h.room hok (by omega)
  obtain ⟨j, hj⟩ := Nat.exists_eq_add_of_le hle
  have := (hs.keeps q hq b hb).2 (j + i) (by omega)
  rw [hj, Nat.add_assoc]
  exact this

/-- **The invariant after a call about `r`**: all others stay, and `r` is represented by blocks
that they do not use. -/
theorem Inv.update (h : Inv sys s l) (hok : BlocksOK s') (r : ℕ)
    (hold : ∀ k e, l' k = some e → k ≠ r → l k = some e ∧ Stays s s' k)
    (hnew : ∀ e, l' r = some e → Rep sys s' r e ∧
      ∀ k e', l k = some e' → Stays s s' k → k ≠ r → ∀ q, Uses s' r q → ¬ Uses s k q) :
    Inv sys s' l' := by
  refine ⟨hok, fun k e hk => ?_, fun k k' e e' hk hk' hne q hq hq' => ?_⟩
  · rcases eq_or_ne k r with rfl | hkr
    · exact (hnew e hk).1
    · obtain ⟨hl, hs⟩ := hold k e hk hkr
      exact (h.rep k e hl).stays hs
  · rcases eq_or_ne k r with rfl | hkr
    · obtain ⟨hl', hs'⟩ := hold k' e' hk' hne.symm
      exact (hnew e hk).2 k' e' hl' hs' hne.symm q hq ((uses_congr hs'.headers).1 hq')
    · obtain ⟨hl, hs⟩ := hold k e hk hkr
      have hq := (uses_congr hs.headers).1 hq
      rcases eq_or_ne k' r with rfl | hkr'
      · exact (hnew e' hk').2 k e hl hs hkr q hq' hq
      · obtain ⟨hl', hs'⟩ := hold k' e' hk' hkr'
        exact h.apart k k' e e' hl hl' hne q hq ((uses_congr hs'.headers).1 hq')

/-- **The invariant is what is owed.** -/
theorem Inv.sound (h : Inv sys s l) : Sound sys s l := by
  refine ⟨fun k e hk hpos => ?_, fun k k' e e' hk hk' hne hpos hpos' => ?_, fun k e hk hp => ?_,
    fun k e hk hlocal => ?_, fun k e hk hp => ((h.rep k e hk).handle hp).locks⟩
  · obtain ⟨q, b, -, hb, hroom⟩ := (h.rep k e hk).room h.ok hpos
    exact ⟨q, b, hb, hroom⟩
  · obtain ⟨q, b, hq, hb, hle, hroom⟩ := (h.rep k e hk).room h.ok hpos
    obtain ⟨q', b', hq', hb', hle', hroom'⟩ := (h.rep k' e' hk').room h.ok hpos'
    have hqq : q ≠ q' := by
      rintro rfl
      exact h.apart k k' e e' hk hk' hne q hq hq'
    have := h.ok.apart q q' b b' hb hb' hqq
    unfold sizeofHandle at this
    omega
  · obtain ⟨hheap, b, hb, hbheap, hlen⟩ := (h.rep k e hk).fixed hp
    have hfind : find sys s e.heap k = some b := find_eq_some_iff.2 ⟨hheap, hb, hbheap⟩
    unfold heapSize
    rw [hfind]
    exact hlen
  · obtain ⟨hshort, hheap⟩ := (h.rep k e hk).1 hlocal
    unfold localSize
    cases hp : isPointer k with
    | true =>
      obtain ⟨hisHeap, b, hb, hbheap, hlen⟩ := (h.rep k e hk).fixed hp
      have hfind : find sys s sys.processHeap k = some b :=
        find_eq_some_iff.2 ⟨hheap ▸ hisHeap, hb, hheap ▸ hbheap⟩
      simp only [if_true, heapSize, hfind, Option.map_some, Option.getD_some, hlen]
      exact Nat.mod_eq_of_lt hshort
    | false =>
      have hrep := (h.rep k e hk).handle hp
      simp only [Bool.false_eq_true, if_false]
      rcases hrep.memory with ⟨hptr, hsize⟩ | ⟨hlt, hpos, hle, b, hb, hbheap, hlen⟩
      · rw [if_neg (fun h => h.2 hptr), hsize]
      · have hfind : find sys s sys.processHeap ((s.headers k).ptr - storage) = some b :=
          find_eq_some_iff.2 ⟨sys.process_isHeap, hb, hbheap⟩
        rw [if_pos ⟨hrep.magic, by omega⟩]
        simp only [heapSize, hfind, Option.map_some, Option.getD_some, hlen]
        rw [Nat.add_sub_cancel, Nat.mod_eq_of_lt hshort]

end Rep

/-! ### Blocks of the heap -/

section Fixed

variable {sys : System} {s s' : State} {l : Ledger} {k p r : ℕ} {e : Entry} {b : MemBlock}

theorem Inv.congr (h : Inv sys s l) (hblocks : s'.blocks = s.blocks)
    (hheaders : s'.headers = s.headers) : Inv sys s' l := by
  refine ⟨⟨fun p b => hblocks ▸ h.ok.aligned p b, fun p b => hblocks ▸ h.ok.large p b,
    fun p b => hblocks ▸ h.ok.inside p b, fun p q b c => hblocks ▸ h.ok.apart p q b c⟩,
    fun k e hk => ?_, fun k k' e e' hk hk' hne q hq hq' => ?_⟩
  · exact (h.rep k e hk).congr (congrFun hheaders k) fun q _ => congrFun hblocks q
  · exact h.apart k k' e e' hk hk' hne q ((uses_congr (congrFun hheaders k)).1 hq)
      ((uses_congr (congrFun hheaders k')).1 hq')

theorem Unchanged.refl (s : State) (k : ℕ) (e : Entry) : Unchanged s s k e := ⟨rfl, fun _ _ => rfl⟩

theorem Unchanged.trans {s'' : State} (h : Unchanged s s' k e) (h' : Unchanged s' s'' k e) :
    Unchanged s s'' k e :=
  ⟨h'.1.trans h.1, fun i hi => (h.1 ▸ h'.2 i hi).trans (h.2 i hi)⟩

/-- **A call that fails without a trace.** -/
theorem kept_of_same {c : Call} {r : ℕ} (hblocks : s'.blocks = s.blocks)
    (hheaders : s'.headers = s.headers) (hmem : s'.mem = s.mem)
    (hres : ∀ k e n zero, Resizes k e n zero c → r = 0) (hin : ∀ k, InPlace k c → r = 0) :
    Kept s l c s' r := by
  have hsame : ∀ k e, Unchanged s s' k e := fun k e =>
    ⟨address_congr (congrFun hheaders k), fun i _ => congrFun hmem _⟩
  exact ⟨fun k e _ _ => hsame k e,
    fun _ => ⟨hblocks, fun k e _ => ⟨congrFun hheaders k, hsame k e⟩⟩,
    fun k e n zero hr _ hne => absurd (hres k e n zero hr) hne,
    fun k hk _ hne => absurd (hin k hk) hne⟩

theorem Grown.stays (h : Grown s s' r b) (k : ℕ) : Stays s s' k :=
  ⟨congrFun h.headers k, fun q _ c hc => h.keeps q c hc⟩

theorem not_uses_of_fresh (h : Inv sys s l) (hfresh : s.blocks r = none) (hk : l k = some e) :
    ¬ Uses s k r := by
  intro hr
  obtain ⟨c, hc⟩ := (h.rep k e hk).block_of_uses hr
  rw [hfresh] at hc
  cases hc

theorem Grown.ne_zero (h : Grown s s' r b) : r ≠ 0 := by
  have := h.ok.aligned r b h.block
  omega

theorem Inv.zero (h : Inv sys s l) : l 0 = none := by
  cases hl : l 0 with
  | none => rfl
  | some e =>
    obtain ⟨-, b, hb, -⟩ := (h.rep 0 e hl).fixed (by decide)
    exact absurd (h.ok.aligned 0 b hb).2 (by decide)

/-- **A new block that the program is given.** -/
theorem Inv.grown (h : Inv sys s l) (hg : Grown s s' r b) (hheap : sys.isHeap b.heap = true)
    {isLocal : Bool} (hlocal : isLocal = true → Short b.len ∧ b.heap = sys.processHeap) :
    Inv sys s' (Function.update l r (some ⟨b.heap, b.len, isLocal, 0, true⟩)) := by
  have hr := isPointer_of_aligned (hg.ok.aligned r b hg.block).1
  refine h.update hg.ok r (fun k e hk hne => ?_) fun e he => ?_
  · rw [Function.update_of_ne hne] at hk
    exact ⟨hk, hg.stays k⟩
  · rw [Function.update_self] at he
    obtain rfl := Option.some.inj he
    refine ⟨⟨hlocal, ?_⟩, fun k e' hk _ _ q hq hq' => ?_⟩
    · rw [if_pos hr]
      exact ⟨hheap, b, hg.block, rfl, rfl⟩
    · obtain rfl := (uses_fixed hr).1 hq
      exact not_uses_of_fresh h hg.fresh hk hq'

/-- A block that is found is one that the program has been given. -/
theorem Inv.fixed_of_find (h : Inv sys s l) {hHeap : ℕ} (hfind : find sys s hHeap p = some b)
    (howned : (l p).isSome = true ∨ s.blocks p = none) :
    ∃ e, l p = some e ∧ isPointer p = true ∧ e.size = b.len ∧ e.heap = b.heap := by
  obtain ⟨-, hb, -⟩ := find_eq_some_iff.1 hfind
  have hp := isPointer_of_aligned (h.ok.aligned p b hb).1
  rcases howned with hl | hnone
  · obtain ⟨e, he⟩ := Option.isSome_iff_exists.1 hl
    obtain ⟨-, c, hc, hheap, hlen⟩ := (h.rep p e he).fixed hp
    obtain rfl := Option.some.inj (hb.symm.trans hc)
    exact ⟨e, he, hp, hlen.symm, hheap.symm⟩
  · rw [hnone] at hb
    cases hb

theorem Inv.not_uses (h : Inv sys s l) {e' : Entry} (hp : l p = some e) (hptr : isPointer p = true)
    (hk : l k = some e') (hne : k ≠ p) : ¬ Uses s k p := fun hu =>
  h.apart k p e' e hk hp hne p hu ((uses_fixed hptr).2 rfl)

theorem Freed.stays (h : Freed s s' p) (hu : ¬ Uses s k p) : Stays s s' k := by
  refine ⟨congrFun h.headers k, fun q hq c hc => ?_⟩
  have hne : q ≠ p := fun heq => hu (heq ▸ hq)
  exact ⟨(h.others q hne).trans hc, fun i _ => congrFun h.mem _⟩

/-- **A block that the program gives back.** -/
theorem Inv.freed (h : Inv sys s l) (hf : Freed s s' p) (hp : l p = some e)
    (hptr : isPointer p = true) : Inv sys s' (Function.update l p none) := by
  refine h.update hf.ok p (fun k e' hk hne => ?_) fun e' he' => ?_
  · rw [Function.update_of_ne hne] at hk
    exact ⟨hk, hf.stays (h.not_uses hp hptr hk hne)⟩
  · rw [Function.update_self] at he'
    cases he'

theorem Resized.stays {f : UInt32} {n : ℕ} (h : Resized s s' p r b f n) (hu : ¬ Uses s k p) :
    Stays s s' k :=
  ⟨congrFun h.headers k, fun q hq c hc => h.keeps q c hc fun heq => hu (heq ▸ hq)⟩

theorem Resized.pointer {f : UInt32} {n : ℕ} (h : Resized s s' p r b f n) :
    isPointer r = true ∧ r ≠ 0 := by
  obtain ⟨c, hc, -⟩ := h.block
  have := h.ok.aligned r c hc
  exact ⟨isPointer_of_aligned this.1, by omega⟩

/-- **A block with another size.** -/
theorem Inv.resized (h : Inv sys s l) {f : UInt32} {n : ℕ} (hr : Resized s s' p r b f n)
    (hp : l p = some e) (hptr : isPointer p = true) (hheap : sys.isHeap b.heap = true)
    {isLocal : Bool} (hlocal : isLocal = true → Short n ∧ b.heap = sys.processHeap) :
    Inv sys s' (Function.update (Function.update l p none) r
      (some ⟨b.heap, n, isLocal, 0, true⟩)) := by
  obtain ⟨hrptr, -⟩ := hr.pointer
  refine h.update hr.ok r (fun k e' hk hne => ?_) fun e' he' => ?_
  · rw [Function.update_of_ne hne, Function.update_apply] at hk
    split_ifs at hk with hkp
    exact ⟨hk, hr.stays (h.not_uses hp hptr hk hkp)⟩
  · rw [Function.update_self] at he'
    obtain rfl := Option.some.inj he'
    obtain ⟨c, hc, hcheap, hclen⟩ := hr.block
    refine ⟨⟨hlocal, ?_⟩, fun k e'' hk _ hne q hq hq' => ?_⟩
    · rw [if_pos hrptr]
      exact ⟨hheap, c, hc, hcheap, hclen⟩
    · obtain rfl := (uses_fixed hrptr).1 hq
      rcases eq_or_ne q p with rfl | hqp
      · exact h.not_uses hp hptr hk hne hq'
      · exact not_uses_of_fresh h (hr.fresh hqp) hk hq'

theorem address_fixed (hk : isPointer k = true) : address s k = k := by
  unfold address
  rw [if_pos hk]

theorem Resized.contents {f : UInt32} {n : ℕ} (hr : Resized s s' p r b f n)
    (hptr : isPointer p = true) (hsize : e.size = b.len) {zero : Bool}
    (hzero : zero = true → zeroes f = true) :
    (∀ i < min e.size n, s'.mem (address s' r + i) = s.mem (address s p + i)) ∧
      (zero = true → ∀ i, e.size ≤ i → i < n → s'.mem (address s' r + i) = 0) := by
  rw [address_fixed hptr, address_fixed hr.pointer.1, hsize]
  exact ⟨hr.kept, fun hz => hr.zero (hzero hz)⟩

theorem heapAlloc_of_fits (hs : BlocksOK s) {hHeap n : ℕ} (hheap : sys.isHeap hHeap = true)
    (f : UInt32) (hfits : Refused sys s n ∨ NoWrap sys n) :
    heapAlloc sys s hHeap f n = some ({ s with tick := s.tick + 1 }, 0) ∨
      ∃ s' r, heapAlloc sys s hHeap f n = some (s', r) ∧
        Grown s s' r ⟨hHeap, n, sys.bufLen n - sizeofHandle⟩ := by
  rcases hfits with hrefused | hwrap
  · exact .inl (heapAlloc_of_none hheap hrefused f)
  · rcases heapAlloc_spec hs hheap hwrap f with ⟨-, hfail⟩ | ⟨s', r, hcall, -, -, hg, -⟩
    · exact .inl hfail
    · exact .inr ⟨s', r, hcall, hg⟩

/-- **`HeapAlloc` is correct.** -/
theorem correct_heapAlloc (h : Inv sys s l) {hHeap : ℕ} (f : UInt32) (n : UInt64)
    (hfits : sys.isHeap hHeap = true → Refused sys s n.toNat ∨ NoWrap sys n.toNat) :
    ∃ s' r, step sys s (.heapAlloc hHeap f n) = some (s', r) ∧
      Kept s l (.heapAlloc hHeap f n) s' r ∧
      Inv sys s' (record sys l (.heapAlloc hHeap f n) r) := by
  cases hheap : sys.isHeap hHeap with
  | false =>
    refine ⟨s, 0, ?_, kept_of_same rfl rfl rfl (fun _ _ _ _ _ => rfl) fun _ _ => rfl, ?_⟩
    · simp only [step, heapAlloc, hheap, if_true]
    · exact h
  | true =>
    rcases heapAlloc_of_fits h.ok hheap f (hfits hheap) with hfail | ⟨s', r, hcall, hg⟩
    · refine ⟨_, 0, hfail, kept_of_same rfl rfl rfl (fun _ _ _ _ _ => rfl) fun _ _ => rfl, ?_⟩
      exact h.congr rfl rfl
    · refine ⟨s', r, hcall, ⟨fun k e hk _ => ?_, fun hzero => absurd hzero hg.ne_zero,
        fun _ _ _ _ hres => hres.elim, fun _ hin => hin.elim⟩, ?_⟩
      · exact (h.rep k e hk).unchanged h.ok (hg.stays k)
      · simp only [record, if_neg hg.ne_zero]
        exact h.grown hg hheap fun hf => absurd hf (by decide)

/-- **`HeapFree` is correct.** -/
theorem correct_heapFree (h : Inv sys s l) {hHeap : ℕ}
    (howned : (l p).isSome = true ∨ s.blocks p = none) :
    ∃ s' r, step sys s (.heapFree hHeap p) = some (s', r) ∧
      Kept s l (.heapFree hHeap p) s' r ∧ Inv sys s' (record sys l (.heapFree hHeap p) r) := by
  cases hfind : find sys s hHeap p with
  | none =>
    refine ⟨s, 0, ?_, kept_of_same rfl rfl rfl (fun _ _ _ _ _ => rfl) fun _ _ => rfl, h⟩
    simp only [step, heapFree_of_find_none hfind]
    rfl
  | some b =>
    obtain ⟨e, he, hptr, -, -⟩ := h.fixed_of_find hfind howned
    obtain ⟨s', hcall, -, hf⟩ := heapFree_spec h.ok hfind
    refine ⟨s', 1, ?_, ⟨fun k e' hk hne => ?_, fun hzero => absurd hzero Nat.one_ne_zero,
      fun _ _ _ _ hres => hres.elim, fun _ hin => hin.elim⟩, ?_⟩
    · simp only [step, hcall]
      rfl
    · exact (h.rep k e' hk).unchanged h.ok (hf.stays (h.not_uses he hptr hk hne))
    · exact h.freed hf he hptr

/-- **`HeapReAlloc` is correct.** -/
theorem correct_heapReAlloc (h : Inv sys s l) {hHeap : ℕ} (f : UInt32) (n : UInt64)
    (howned : (l p).isSome = true ∨ s.blocks p = none)
    (hfits : Fits sys s (.heapReAlloc hHeap f p n)) :
    ∃ s' r, step sys s (.heapReAlloc hHeap f p n) = some (s', r) ∧
      Kept s l (.heapReAlloc hHeap f p n) s' r ∧
      Inv sys s' (record sys l (.heapReAlloc hHeap f p n) r) := by
  cases hfind : find sys s hHeap p with
  | none =>
    refine ⟨s, 0, ?_, kept_of_same rfl rfl rfl (fun _ _ _ _ _ => rfl) fun _ _ => rfl, h⟩
    exact heapReAlloc_of_find_none hfind
  | some b =>
    obtain ⟨e, he, hptr, hsize, -⟩ := h.fixed_of_find hfind howned
    obtain ⟨hheap, -, hbheap⟩ := find_eq_some_iff.1 hfind
    have hdone : ∀ s' r, heapReAlloc sys s hHeap f p n.toNat = some (s', r) →
        Resized s s' p r b f n.toNat → (has f HEAP_REALLOC_IN_PLACE_ONLY = true → r = p) →
        ∃ s' r, step sys s (.heapReAlloc hHeap f p n) = some (s', r) ∧
          Kept s l (.heapReAlloc hHeap f p n) s' r ∧
          Inv sys s' (record sys l (.heapReAlloc hHeap f p n) r) := by
      intro s' r hcall hr hin
      refine ⟨s', r, hcall, ⟨fun k e' hk hne => ?_, fun hzero => absurd hzero hr.pointer.2, ?_, ?_⟩,
        ?_⟩
      · exact (h.rep k e' hk).unchanged h.ok (hr.stays (h.not_uses he hptr hk hne))
      · rintro k e' m zero ⟨rfl, rfl, rfl⟩ hk -
        obtain rfl := Option.some.inj (hk.symm.trans he)
        exact hr.contents hptr hsize id
      · rintro k ⟨rfl, hflag⟩ - -
        exact hin hflag
      · simp only [record, if_neg hr.pointer.2]
        rw [← hbheap]
        exact h.resized hr he hptr (hbheap ▸ hheap) fun hf => absurd hf (by decide)
    have hfailed : heapReAlloc sys s hHeap f p n.toNat = some ({ s with tick := s.tick + 1 }, 0) →
        ∃ s' r, step sys s (.heapReAlloc hHeap f p n) = some (s', r) ∧
          Kept s l (.heapReAlloc hHeap f p n) s' r ∧
          Inv sys s' (record sys l (.heapReAlloc hHeap f p n) r) := fun hcall =>
      ⟨_, 0, hcall, kept_of_same rfl rfl rfl (fun _ _ _ _ _ => rfl) fun _ _ => rfl, h.congr rfl rfl⟩
    by_cases hroom : n.toNat ≤ b.allocSize
    · obtain ⟨s', hcall, -, hr⟩ := heapReAlloc_in_place h.ok hfind f hroom
      exact hdone s' p hcall hr fun _ => rfl
    · rcases (hfits b hfind).resolve_left hroom with hrefused | ⟨hwrap, hflag⟩
      · exact hfailed (heapReAlloc_of_none hfind f hroom hrefused)
      · rcases heapReAlloc_move h.ok hfind f hroom hwrap with
          ⟨-, hcall⟩ | ⟨s', r, hcall, -, -, -, hr⟩
        · exact hfailed hcall
        · exact hdone s' r hcall hr fun hset => absurd (hset.symm.trans hflag) (by decide)

end Fixed

/-! ### Handles -/

section Handles

variable {sys : System} {s s' : State} {l : Ledger} {k p r : ℕ} {e : Entry} {b : MemBlock}
  {flags : UInt32}

theorem BlocksOK.congr (h : BlocksOK s) (hblocks : s'.blocks = s.blocks) : BlocksOK s' :=
  blocksOK_of_subset h fun _ _ hq => hblocks ▸ hq

theorem Inv.of_stays (h : Inv sys s l) (hok : BlocksOK s')
    (hstays : ∀ k e, l k = some e → Stays s s' k) : Inv sys s' l :=
  ⟨hok, fun k e hk => (h.rep k e hk).stays (hstays k e hk),
    fun k k' e e' hk hk' hne q hq hq' => h.apart k k' e e' hk hk' hne q
      ((uses_congr (hstays k e hk).headers).1 hq) ((uses_congr (hstays k' e' hk').headers).1 hq')⟩

theorem Inv.others (h : Inv sys s l) (hk : l k = some e) {k' : ℕ} {e' : Entry}
    (hk' : l k' = some e') (hne : k' ≠ k) (hheaders : s'.headers k' = s.headers k')
    (hkeeps : ∀ q c, ¬ Uses s k q → s.blocks q = some c → Keeps s s' q c) : Stays s s' k' :=
  ⟨hheaders, fun q hq c hc => hkeeps q c (h.apart k' k e' e hk' hk hne q hq) hc⟩

theorem stays_setHeader {k' : ℕ} (hne : k' ≠ k) (hd : LocalHeader) :
    Stays s (s.setHeader k hd) k' :=
  ⟨Function.update_of_ne hne _ _, fun _ _ _ h => Keeps.refl h⟩

theorem stays_put (hok : BlocksOK s) (hb : s.blocks p = some b) {a n : ℕ} {f : ℕ → UInt8}
    (hlo : p ≤ a) (hhi : a + n ≤ p + b.allocSize) (hu : ¬ Uses s k p) :
    Stays s { s with mem := put s.mem a n f } k := by
  refine ⟨rfl, fun q hq c hc => ⟨hc, fun i hi => put_of_not ?_⟩⟩
  have hne : q ≠ p := fun heq => hu (heq ▸ hq)
  have := hok.apart q p c b hc hb hne
  unfold sizeofHandle at this
  omega

theorem zeroes_heapFlags (flags : UInt32) : zeroes (heapFlags flags) = has flags LMEM_ZEROINIT := by
  unfold heapFlags
  cases has flags LMEM_ZEROINIT <;> decide

theorem noWrap_of_le {n : ℕ} (h : n ≤ INT_MAX) : NoWrap sys n := by
  have := sys.page_lt
  unfold NoWrap sizeofHandle addresses
  unfold INT_MAX at h
  omega

theorem HandleRep.find_header (h : HandleRep sys s k e) :
    ∃ b, find sys s sys.processHeap (getHeader k) = some b := by
  obtain ⟨b, hb, hheap, -⟩ := h.header
  exact ⟨b, find_eq_some_iff.2 ⟨sys.process_isHeap, hb, hheap⟩⟩

theorem getHandle_ne_zero (header : ℕ) : getHandle header ≠ 0 := by
  unfold getHandle
  omega

theorem getHeader_getHandle (header : ℕ) : getHeader (getHandle header) = header := by
  unfold getHeader getHandle
  omega

theorem Inv.handle_fresh (h : Inv sys s l) {header : ℕ} (hfresh : s.blocks header = none)
    (hptr : isPointer (getHandle header) = false) : l (getHandle header) = none := by
  cases hl : l (getHandle header) with
  | none => rfl
  | some e =>
    obtain ⟨b, hb, -⟩ := ((h.rep _ e hl).handle hptr).header
    rw [getHeader_getHandle, hfresh] at hb
    cases hb

/-- **A handle that is given**, and what is left alone. -/
structure Given (sys : System) (s s' : State) (l : Ledger) (r size : ℕ) (zero : Bool) : Prop where
  ne_zero : r ≠ 0
  handle : isPointer r = false
  fresh : l r = none
  stays : ∀ k e, l k = some e → Stays s s' k
  unlocked : (s'.headers r).lock = 0
  inv : Inv sys s' (Function.update l r (some ⟨sys.processHeap, size, true, 0, true⟩))
  zero : zero = true → ∀ i < size, s'.mem (address s' r + i) = 0

theorem address_handle (hk : isPointer k = false) : address s k = (s.headers k).ptr := by
  unfold address
  rw [if_neg (by simp [hk])]

theorem given_of (h : Inv sys s l) {header size : ℕ} (ptr : ℕ) (fl : UInt8) {zero : Bool}
    (haligned : header % 16 = 8) (hfresh : s.blocks header = none) (hok : BlocksOK s')
    (hheader : ∃ b, s'.blocks header = some b ∧ b.heap = sys.processHeap ∧ b.len = sizeofHeader)
    (hstays : ∀ k e, l k = some e → Stays s s' k)
    (hd : s'.headers (getHandle header) = ⟨MAGIC_LOCAL_USED, ptr, fl, 0⟩)
    (hmem : StorageRep sys s' ptr size) (hnew : ptr ≠ 0 → s.blocks (ptr - storage) = none)
    (hsize : size ≤ INT_MAX - storage) (hzero : zero = true → ∀ i < size, s'.mem (ptr + i) = 0) :
    Given sys s s' l (getHandle header) size zero := by
  have hptr := isPointer_getHandle haligned
  refine ⟨getHandle_ne_zero header, hptr, h.handle_fresh hfresh hptr, hstays, by rw [hd], ?_, ?_⟩
  · refine h.update hok (getHandle header) (fun k e hk hne => ?_) fun e he =>
      ⟨⟨fun _ => ?_, ?_⟩, ?_⟩
    · rw [Function.update_of_ne hne] at hk
      exact ⟨hk, hstays k e hk⟩
    · rw [Function.update_self] at he
      obtain rfl := Option.some.inj he
      refine ⟨?_, rfl⟩
      unfold Short
      unfold INT_MAX at hsize
      simp only
      omega
    · rw [Function.update_self] at he
      obtain rfl := Option.some.inj he
      rw [if_neg (by simp [hptr])]
      refine ⟨rfl, by rwa [getHeader_getHandle], by unfold getHandle; omega, by rw [hd], ?_, ?_⟩
      · rw [hd]
        exact hmem
      · rw [hd]
        exact fun _ => rfl
    · intro k e' hk _ _ q hq hq'
      rcases (uses_handle hptr).1 hq with heq | ⟨hne, heq⟩
      · rw [heq, getHeader_getHandle] at hq'
        exact not_uses_of_fresh h hfresh hk hq'
      · rw [heq, hd] at hq'
        rw [hd] at hne
        exact not_uses_of_fresh h (hnew hne) hk hq'
  · rw [address_handle hptr, hd]
    exact hzero

theorem localAllocStorage_spec (h : Inv sys s l) (flags : UInt32) {s₁ : State} {header : ℕ}
    (hg : Grown s s₁ header ⟨sys.processHeap, sizeofHeader, sys.bufLen sizeofHeader - sizeofHandle⟩)
    {size : ℕ} (hsize : size ≤ INT_MAX - storage) :
    (size ≠ 0 ∧ sys.posixMemalign s₁.tick s₁.blocks (sys.bufLen (size + storage)) = none ∧
        ∃ s', localAllocStorage sys s₁ flags size header = some (s', 0) ∧
          s'.blocks = s.blocks ∧ ∀ k e, l k = some e → Stays s s' k) ∨
      ∃ s', localAllocStorage sys s₁ flags size header = some (s', getHandle header) ∧
        Given sys s s' l (getHandle header) size (has flags LMEM_ZEROINIT) := by
  have haligned := (hg.ok.aligned _ _ hg.block).1
  have hptr := isPointer_getHandle haligned
  have hfresh := h.handle_fresh hg.fresh hptr
  have hne : ∀ k e, l k = some e → k ≠ getHandle header := by
    rintro k e hk rfl
    rw [hfresh] at hk
    cases hk
  -- The state with the header filled in.
  obtain ⟨s₂, hs₂⟩ : ∃ s₂, s₂ = s₁.setHeader (getHandle header)
      ⟨MAGIC_LOCAL_USED, (s₁.headers (getHandle header)).ptr, (flags >>> 8).toUInt8, 0⟩ := ⟨_, rfl⟩
  have hstays : ∀ k e, l k = some e → Stays s s₂ k := fun k e hk =>
    hs₂ ▸ (hg.stays k).trans (stays_setHeader (hne k e hk) _)
  have hblocks : s₂.blocks = s₁.blocks := by rw [hs₂]; rfl
  have hok : BlocksOK s₂ := hg.ok.congr hblocks
  have hhead : s₂.headers (getHandle header) =
      ⟨MAGIC_LOCAL_USED, (s₁.headers (getHandle header)).ptr, (flags >>> 8).toUInt8, 0⟩ := by
    rw [hs₂]
    exact Function.update_self _ _ _
  unfold localAllocStorage
  simp only [← hs₂]
  by_cases hzero : size = 0
  · right
    simp only [if_pos hzero]
    refine ⟨_, rfl, given_of h 0 (flags >>> 8).toUInt8 haligned hg.fresh (hok.congr rfl) ?_
      (fun k e hk => ?_) ?_ (.inl ⟨rfl, hzero⟩) (fun h0 => absurd rfl h0) hsize ?_⟩
    · exact ⟨_, (congrFun hblocks header).trans hg.block, rfl, rfl⟩
    · exact (hstays k e hk).trans (stays_setHeader (hne k e hk) _)
    · simp only [State.setHeader, Function.update_self, hhead]
    · intro _ i hi
      omega
  · simp only [if_neg hzero]
    have hwrap : NoWrap sys (size + storage) := noWrap_of_le (by
      unfold storage INT_MAX at *
      omega)
    rcases heapAlloc_spec hok sys.process_isHeap hwrap (heapFlags flags) with
      ⟨hnone, hcall⟩ | ⟨s₃, ptr, hcall, -, -, hg₃, hz⟩
    · left
      have htick : s₂.tick = s₁.tick := by rw [hs₂]; rfl
      rw [htick, hblocks] at hnone
      refine ⟨hzero, hnone, ?_⟩
      have hfind : find sys { s₂ with tick := s₂.tick + 1 } sys.processHeap header =
          some ⟨sys.processHeap, sizeofHeader, sys.bufLen sizeofHeader - sizeofHandle⟩ :=
        find_eq_some_iff.2 ⟨sys.process_isHeap, (congrFun hblocks header).trans hg.block, rfl⟩
      have hok' : BlocksOK { s₂ with tick := s₂.tick + 1 } := hok.congr rfl
      obtain ⟨s₃, hfree, -, hf⟩ := heapFree_spec hok' hfind
      have hres : (heapFree sys { s₂ with tick := s₂.tick + 1 } sys.processHeap header).1 = s₃ := by
        rw [hfree]
      simp only [hcall, if_true]
      have hback : s₃.blocks = s.blocks := by
        funext q
        rcases eq_or_ne q header with rfl | hq
        · rw [hf.gone, hg.fresh]
        · exact (hf.others q hq).trans ((congrFun hblocks q).trans (hg.others q hq))
      refine ⟨s₃, congrArg (fun x => some (x, 0)) hres, hback,
        fun k e hk => (hstays k e hk).trans ⟨congrFun hf.headers k, ?_⟩⟩
      intro q hq c hc
      have hqh : q ≠ header := by
        rintro rfl
        exact not_uses_of_fresh h hg.fresh hk ((uses_congr (hstays k e hk).headers).1 hq)
      exact ⟨(hf.others q hqh).trans hc, fun i _ => congrFun hf.mem _⟩
    · right
      simp only [hcall, if_neg hg₃.ne_zero]
      have hptr₃ : ptr ≠ header := by
        rintro rfl
        have := hg₃.fresh
        rw [hblocks, hg.block] at this
        cases this
      have hnew : s.blocks ptr = none := by
        rw [← hg.others ptr hptr₃, ← hblocks]
        exact hg₃.fresh
      have hpos := (hg₃.ok.aligned ptr _ hg₃.block).2
      refine ⟨_, rfl, given_of h (ptr + storage) (flags >>> 8).toUInt8 haligned hg.fresh
        (hg₃.ok.congr rfl) ?_ (fun k e hk => ?_) ?_ ?_ (fun _ => ?_) hsize ?_⟩
      · refine ⟨⟨sys.processHeap, sizeofHeader, sys.bufLen sizeofHeader - sizeofHandle⟩, ?_, rfl,
          rfl⟩
        exact (hg₃.others header hptr₃.symm).trans ((congrFun hblocks header).trans hg.block)
      · have hu : ¬ Uses s₃ k ptr := by
          intro hu
          refine not_uses_of_fresh h hnew hk ?_
          exact (uses_congr ((hstays k e hk).trans (hg₃.stays k)).headers).1 hu
        have hput := stays_put hg₃.ok hg₃.block (a := ptr) (n := sizeofHandle)
          (f := word (getHandle header)) le_rfl (by
            have := hg₃.ok.large ptr _ hg₃.block
            unfold sizeofHandle storage at *
            simp only at this ⊢
            omega) hu
        exact (((hstays k e hk).trans (hg₃.stays k)).trans hput).trans
          (stays_setHeader (hne k e hk) _)
      · simp only [State.setHeader, Function.update_self, congrFun hg₃.headers _, hhead]
      · refine .inr ⟨by omega, Nat.pos_of_ne_zero hzero, hsize, ⟨sys.processHeap, size + storage,
          sys.bufLen (size + storage) - sizeofHandle⟩, ?_, rfl, rfl⟩
        rw [Nat.add_sub_cancel]
        exact hg₃.block
      · rw [Nat.add_sub_cancel]
        exact hnew
      · intro hflag i hi
        have hz' := hz ((zeroes_heapFlags flags).trans hflag) (storage + i) (by omega)
        simp only
        rw [put_of_not (by unfold sizeofHandle storage; omega), Nat.add_assoc]
        exact hz'

/-- **What `LocalAlloc` gives for a handle.** -/
theorem localAlloc_handle (h : Inv sys s l) (hmove : has flags LMEM_MOVEABLE = true) (size : ℕ) :
    (¬ Granted sys s size ∧ ∃ s', localAlloc sys s flags size = some (s', 0) ∧
        s'.blocks = s.blocks ∧ ∀ k e, l k = some e → Stays s s' k) ∨
      ∃ s' r, localAlloc sys s flags size = some (s', r) ∧
        Given sys s s' l r size (has flags LMEM_ZEROINIT) := by
  unfold localAlloc
  rw [if_neg (by simp [hmove])]
  by_cases hsize : INT_MAX - storage < size
  · left
    rw [if_pos hsize]
    exact ⟨fun hg => absurd hg.1 (not_le.2 hsize), s, rfl, rfl, fun k _ _ => Stays.refl s k⟩
  · rw [if_neg hsize]
    have hwrap : NoWrap sys sizeofHeader := noWrap_of_le (by decide)
    rcases heapAlloc_spec h.ok sys.process_isHeap hwrap 0 with
      ⟨hnone, hcall⟩ | ⟨s₁, header, hcall, ⟨p, content, hanswer, hheader, hblocks⟩, htick, hg, -⟩
    · left
      refine ⟨fun hgranted => ?_, { s with tick := s.tick + 1 }, by simp only [hcall, if_true], rfl,
        fun k _ _ => ⟨rfl, fun q _ c hc => Keeps.refl hc⟩⟩
      obtain ⟨-, p, content, hp, -⟩ := hgranted
      rw [hnone] at hp
      cases hp
    · simp only [hcall, if_neg hg.ne_zero]
      rcases localAllocStorage_spec h flags hg (not_lt.1 hsize) with
        ⟨hne, hnone, hrest⟩ | ⟨s', hcall', hgiven⟩
      · left
        refine ⟨fun hgranted => ?_, hrest⟩
        obtain ⟨-, p', content', hp, hor⟩ := hgranted
        obtain ⟨rfl, -⟩ := Prod.mk.inj (Option.some.inj (hanswer.symm.trans hp))
        rw [htick, hblocks, hheader] at hnone
        exact hor.elim hne fun hsome => hsome hnone
      · exact .inr ⟨s', _, hcall', hgiven⟩

/-- **`LocalAlloc` is correct.** -/
theorem correct_localAlloc (h : Inv sys s l) (size : UInt64)
    (hfits : has flags LMEM_MOVEABLE = false →
      Refused sys s size.toNat ∨ (NoWrap sys size.toNat ∧ Short size.toNat)) :
    ∃ s' r, step sys s (.localAlloc flags size) = some (s', r) ∧
      Kept s l (.localAlloc flags size) s' r ∧
      Inv sys s' (record sys l (.localAlloc flags size) r) := by
  cases hmove : has flags LMEM_MOVEABLE with
  | false =>
    have hstep : step sys s (.localAlloc flags size) =
        heapAlloc sys s sys.processHeap (heapFlags flags) size.toNat := by
      simp only [step, localAlloc, hmove, if_true]
    rw [hstep]
    have hfailed : heapAlloc sys s sys.processHeap (heapFlags flags) size.toNat =
        some ({ s with tick := s.tick + 1 }, 0) → ∃ s' r,
          heapAlloc sys s sys.processHeap (heapFlags flags) size.toNat = some (s', r) ∧
          Kept s l (.localAlloc flags size) s' r ∧
          Inv sys s' (record sys l (.localAlloc flags size) r) := fun hcall =>
      ⟨_, 0, hcall, kept_of_same rfl rfl rfl (fun _ _ _ _ _ => rfl) fun _ _ => rfl, h.congr rfl rfl⟩
    rcases hfits hmove with hrefused | ⟨hwrap, hshort⟩
    · exact hfailed (heapAlloc_of_none sys.process_isHeap hrefused (heapFlags flags))
    rcases heapAlloc_spec h.ok sys.process_isHeap hwrap (heapFlags flags) with
      ⟨-, hcall⟩ | ⟨s', r, hcall, -, -, hg, -⟩
    · exact hfailed hcall
    · refine ⟨s', r, hcall, ⟨fun k e hk _ => ?_, fun hzero => absurd hzero hg.ne_zero,
        fun _ _ _ _ hres => hres.elim, fun _ hin => hin.elim⟩, ?_⟩
      · exact (h.rep k e hk).unchanged h.ok (hg.stays k)
      · simp only [record, if_neg hg.ne_zero]
        exact h.grown hg sys.process_isHeap fun _ => ⟨hshort, rfl⟩
  | true =>
    rcases localAlloc_handle h hmove size.toNat with
      ⟨-, s', hcall, hblocks, hstays⟩ | ⟨s', r, hcall, hg⟩
    · refine ⟨s', 0, hcall, ⟨fun k e hk _ => ?_, fun _ => ⟨hblocks, fun k e hk => ⟨?_, ?_⟩⟩,
        fun _ _ _ _ hres => hres.elim, fun _ hin => hin.elim⟩, ?_⟩
      · exact (h.rep k e hk).unchanged h.ok (hstays k e hk)
      · exact (hstays k e hk).headers
      · exact (h.rep k e hk).unchanged h.ok (hstays k e hk)
      · exact h.of_stays (h.ok.congr hblocks) hstays
    · refine ⟨s', r, hcall, ⟨fun k e hk _ => ?_, fun hzero => absurd hzero hg.ne_zero,
        fun _ _ _ _ hres => hres.elim, fun _ hin => hin.elim⟩, ?_⟩
      · exact (h.rep k e hk).unchanged h.ok (hg.stays k e hk)
      · simp only [record, if_neg hg.ne_zero]
        exact hg.inv

theorem HandleRep.storage_ne (h : HandleRep sys s k e) (hptr : (s.headers k).ptr ≠ 0) :
    ∃ b, find sys s sys.processHeap ((s.headers k).ptr - storage) = some b ∧
      b.len = e.size + storage ∧ storage < (s.headers k).ptr ∧
      (s.headers k).ptr - storage ≠ getHeader k := by
  rcases h.memory with ⟨hzero, -⟩ | ⟨hlt, hpos, -, b, hb, hheap, hlen⟩
  · exact absurd hzero hptr
  · refine ⟨b, find_eq_some_iff.2 ⟨sys.process_isHeap, hb, hheap⟩, hlen, hlt, fun heq => ?_⟩
    obtain ⟨c, hc, -, hclen⟩ := h.header
    rw [heq, hc] at hb
    obtain rfl := Option.some.inj hb
    unfold sizeofHeader storage at *
    omega

/-- **What `LocalFree` does to a handle.** -/
theorem localFree_handle (h : Inv sys s l) (hk : l k = some e) (hptr : isPointer k = false) :
    ∃ s', localFree sys s k = (s', 0) ∧ (∀ k', k' ≠ k → s'.headers k' = s.headers k') ∧
      (∀ q c, ¬ Uses s k q → s.blocks q = some c → Keeps s s' q c) ∧ BlocksOK s' := by
  have hrep := (h.rep k e hk).handle hptr
  obtain ⟨s₁, hs₁⟩ : ∃ s₁, s₁ = s.setHeader k { s.headers k with magic := 0xdead } := ⟨_, rfl⟩
  have hblocks : s₁.blocks = s.blocks := by rw [hs₁]; rfl
  have hmem : s₁.mem = s.mem := by rw [hs₁]; rfl
  have hheaders : ∀ k', k' ≠ k → s₁.headers k' = s.headers k' := fun k' hne => by
    rw [hs₁]
    exact Function.update_of_ne hne _ _
  have hok₁ : BlocksOK s₁ := h.ok.congr hblocks
  obtain ⟨b, hb⟩ := hrep.find_header
  unfold localFree
  rw [if_neg (by simp [hptr])]
  simp only [hrep.magic, if_true, ← hs₁]
  by_cases hnull : (s.headers k).ptr = 0
  · obtain ⟨s₂, hfree, -, hf⟩ := heapFree_spec hok₁
      (find_eq_some_iff.2 ⟨sys.process_isHeap, hblocks ▸ (find_eq_some_iff.1 hb).2.1,
        (find_eq_some_iff.1 hb).2.2⟩)
    simp only [if_pos hnull, hfree, Bool.and_self, if_true]
    refine ⟨s₂, rfl, fun k' hne => (congrFun hf.headers k').trans (hheaders k' hne),
      fun q c hu hq => ⟨?_, fun i _ => ?_⟩, hf.ok⟩
    · have hne : q ≠ getHeader k := fun heq => hu ((uses_handle hptr).2 (.inl heq))
      rw [hf.others q hne, hblocks, hq]
    · rw [hf.mem, hmem]
  · obtain ⟨c, hc, -, -, hne⟩ := hrep.storage_ne hnull
    obtain ⟨s₂, hfree, -, hf⟩ := heapFree_spec hok₁
      (find_eq_some_iff.2 ⟨sys.process_isHeap, hblocks ▸ (find_eq_some_iff.1 hc).2.1,
        (find_eq_some_iff.1 hc).2.2⟩)
    obtain ⟨s₃, hfree', -, hf'⟩ := heapFree_spec hf.ok
      (find_eq_some_iff.2 ⟨sys.process_isHeap,
        (hf.others _ hne.symm).trans (hblocks ▸ (find_eq_some_iff.1 hb).2.1),
        (find_eq_some_iff.1 hb).2.2⟩)
    simp only [if_neg hnull, hfree, hfree', Bool.and_self, if_true]
    refine ⟨s₃, rfl, fun k' hne' => ?_, fun q d hu hq => ⟨?_, fun i _ => ?_⟩, hf'.ok⟩
    · exact (congrFun hf'.headers k').trans ((congrFun hf.headers k').trans (hheaders k' hne'))
    · have hqh : q ≠ getHeader k := fun heq => hu ((uses_handle hptr).2 (.inl heq))
      have hqs : q ≠ (s.headers k).ptr - storage := fun heq =>
        hu ((uses_handle hptr).2 (.inr ⟨hnull, heq⟩))
      rw [hf'.others q hqh, hf.others q hqs, hblocks, hq]
    · rw [hf'.mem, hf.mem, hmem]

/-- **`LocalFree` is correct.** -/
theorem correct_localFree (h : Inv sys s l)
    (howned : (l k).isSome = true ∨ (isPointer k = true ∧ s.blocks k = none)) :
    ∃ s' r, step sys s (.localFree k) = some (s', r) ∧
      Kept s l (.localFree k) s' r ∧ Inv sys s' (record sys l (.localFree k) r) := by
  cases hptr : isPointer k with
  | true =>
    cases hfind : find sys s sys.processHeap k with
    | none =>
      refine ⟨s, k, ?_, kept_of_same rfl rfl rfl (fun _ _ _ _ hres => hres.elim)
        fun _ hin => hin.elim, ?_⟩
      · simp only [step, localFree, hptr, if_true, heapFree_of_find_none hfind,
          Bool.false_eq_true, if_false]
      · simp only [record]
        split_ifs with hzero
        · -- The null pointer is nothing that has been given.
          rw [hzero, Function.update_eq_self_iff.2 h.zero.symm]
          exact h
        · exact h
    | some b =>
      obtain ⟨e, he, -, -, -⟩ := h.fixed_of_find hfind (howned.imp_right fun h => h.2)
      obtain ⟨s', hcall, -, hf⟩ := heapFree_spec h.ok hfind
      refine ⟨s', 0, ?_, ⟨fun k' e' hk hne => ?_, fun hne => absurd rfl hne,
        fun _ _ _ _ hres => hres.elim, fun _ hin => hin.elim⟩, ?_⟩
      · simp only [step, localFree, hptr, if_true, hcall]
      · exact (h.rep k' e' hk).unchanged h.ok (hf.stays (h.not_uses he hptr hk hne))
      · simp only [record, if_true]
        exact h.freed hf he hptr
  | false =>
    obtain ⟨e, he⟩ := Option.isSome_iff_exists.1
      (howned.resolve_right fun hor => absurd (hptr.symm.trans hor.1) (by decide))
    obtain ⟨s', hcall, hheaders, hkeeps, hok⟩ := localFree_handle h he hptr
    have hstays : ∀ k' e', l k' = some e' → k' ≠ k → Stays s s' k' := fun k' e' hk' hne =>
      h.others he hk' hne (hheaders k' hne) hkeeps
    refine ⟨s', 0, by simp only [step, hcall], ⟨fun k' e' hk hne => ?_, fun hne => absurd rfl hne,
      fun _ _ _ _ hres => hres.elim, fun _ hin => hin.elim⟩, ?_⟩
    · exact (h.rep k' e' hk).unchanged h.ok (hstays k' e' hk hne)
    · simp only [record, if_true]
      refine h.update hok k (fun k' e' hk' hne => ?_) fun e' he' => ?_
      · rw [Function.update_of_ne hne] at hk'
        exact ⟨hk', hstays k' e' hk' hne⟩
      · rw [Function.update_self] at he'
        cases he'

/-- The header of a handle may change where nothing is told of it. -/
theorem Inv.setHeader (h : Inv sys s l) (hk : l k = some e) (hptr : isPointer k = false)
    (hd : LocalHeader) (e' : Entry) (hsame : hd.ptr = (s.headers k).ptr)
    (hmagic : hd.magic = MAGIC_LOCAL_USED) (hheap : e'.heap = e.heap)
    (hsize : e'.size = e.size) (hlocal : e'.isLocal = e.isLocal)
    (hlocks : e'.stayed = true → hd.lock.toNat = e'.locks) :
    Inv sys (s.setHeader k hd) (Function.update l k (some e')) ∧
      ∀ k' e', l k' = some e' → Unchanged s (s.setHeader k hd) k' e' := by
  have hself : (s.setHeader k hd).headers k = hd := Function.update_self _ _ _
  have huses : ∀ q, Uses (s.setHeader k hd) k q ↔ Uses s k q := by
    intro q
    rw [uses_handle hptr, uses_handle hptr, hself, hsame]
  refine ⟨h.update (h.ok.congr rfl) k (fun k' e'' hk' hne => ?_) fun e'' he'' => ⟨?_, ?_⟩, ?_⟩
  · rw [Function.update_of_ne hne] at hk'
    exact ⟨hk', stays_setHeader hne hd⟩
  · rw [Function.update_self] at he''
    obtain rfl := Option.some.inj he''
    have hrep := (h.rep k e hk).handle hptr
    refine ⟨fun hl => ?_, ?_⟩
    · rw [hsize, hheap]
      exact (h.rep k e hk).1 (hlocal ▸ hl)
    · rw [if_neg (by simp [hptr])]
      refine ⟨hheap.trans hrep.heap, hrep.header, hrep.two_le, ?_, ?_, ?_⟩
      · rw [hself]
        exact hmagic
      · rw [hself, hsame, hsize]
        exact hrep.memory
      · rw [hself]
        exact hlocks
  · intro k' e'' hk' _ hne q hq hq'
    exact h.apart k' k e'' e hk' hk hne q hq' ((huses q).1 hq)
  · intro k' e'' _
    refine ⟨?_, fun _ _ => rfl⟩
    rcases eq_or_ne k' k with rfl | hne
    · rw [address_handle hptr, address_handle hptr, hself, hsame]
    · exact address_congr (Function.update_of_ne hne _ _)

/-- **`LocalLock` is correct.** -/
theorem correct_localLock (h : Inv sys s l) (howned : (l k).isSome = true) :
    ∃ s' r, step sys s (.localLock k) = some (s', r) ∧
      Kept s l (.localLock k) s' r ∧ Inv sys s' (record sys l (.localLock k) r) := by
  obtain ⟨e, he⟩ := Option.isSome_iff_exists.1 howned
  cases hptr : isPointer k with
  | true =>
    obtain ⟨-, b, hb, -⟩ := (h.rep k e he).fixed hptr
    refine ⟨s, k, ?_, kept_of_same rfl rfl rfl (fun _ _ _ _ hres => hres.elim)
      fun _ hin => hin.elim, ?_⟩
    · simp only [step, localLock, hptr, if_true, hb, Option.isSome_some]
    · simp only [record, hptr, or_true, if_true]
      exact h
  | false =>
    have hrep := (h.rep k e he).handle hptr
    simp only [step, localLock, hptr, Bool.false_eq_true, if_false]
    rw [if_pos hrep.magic]
    by_cases hnull : (s.headers k).ptr = 0
    · refine ⟨s, 0, by rw [if_pos hnull], kept_of_same rfl rfl rfl
        (fun _ _ _ _ hres => hres.elim) fun _ hin => hin.elim, ?_⟩
      simp only [record, true_or, if_true]
      exact h
    · have hrecord : record sys l (.localLock k) (s.headers k).ptr =
          Function.update l k (some e.lock) := by
        simp only [record, hptr, Bool.false_eq_true, or_false, if_neg hnull, he, Option.map_some]
      rw [if_neg hnull]
      by_cases hlt : (s.headers k).lock < LMEM_LOCKCOUNT
      · rw [if_pos hlt]
        have hlt' : (s.headers k).lock.toNat < 255 := UInt8.lt_iff_toNat_lt.1 hlt
        obtain ⟨hinv, hsame⟩ := h.setHeader he hptr
          { s.headers k with lock := (s.headers k).lock + 1 } e.lock rfl hrep.magic rfl rfl rfl (by
            simp only [Entry.lock, Bool.and_eq_true, decide_eq_true_eq, and_imp]
            intro hstayed _
            rw [UInt8.toNat_add, ← hrep.locks hstayed, Nat.mod_eq_of_lt (by simpa using by omega)]
            rfl)
        exact ⟨_, _, rfl, ⟨fun k' e' hk' _ => hsame k' e' hk', fun hzero => absurd hzero hnull,
          fun _ _ _ _ hres => hres.elim, fun _ hin => hin.elim⟩, hrecord ▸ hinv⟩
      · rw [if_neg hlt]
        have hfull : (s.headers k).lock.toNat = 255 := by
          have h255 := (s.headers k).lock.toNat_lt
          rw [UInt8.lt_iff_toNat_lt] at hlt
          have : LMEM_LOCKCOUNT.toNat = 255 := rfl
          omega
        obtain ⟨hinv, -⟩ := h.setHeader he hptr (s.headers k) e.lock rfl hrep.magic rfl rfl rfl (by
            simp only [Entry.lock, Bool.and_eq_true, decide_eq_true_eq, and_imp]
            intro hstayed hle
            have := hrep.locks hstayed
            omega)
        refine ⟨_, _, rfl, ⟨fun _ _ _ _ => Unchanged.refl _ _ _, fun hzero => absurd hzero hnull,
          fun _ _ _ _ hres => hres.elim, fun _ hin => hin.elim⟩, ?_⟩
        rw [hrecord]
        exact hinv.congr rfl (Function.update_eq_self _ _).symm

/-- **`LocalUnlock` is correct.** -/
theorem correct_localUnlock (h : Inv sys s l)
    (howned : (l k).isSome = true ∨ isPointer k = true) :
    ∃ s' r, step sys s (.localUnlock k) = some (s', r) ∧
      Kept s l (.localUnlock k) s' r ∧ Inv sys s' (record sys l (.localUnlock k) r) := by
  cases hptr : isPointer k with
  | true =>
    refine ⟨s, 1, ?_, kept_of_same rfl rfl rfl (fun _ _ _ _ hres => hres.elim)
      fun _ hin => hin.elim, ?_⟩
    · simp only [step, localUnlock, hptr, if_true]
    · simp only [record, hptr, if_true]
      exact h
  | false =>
    obtain ⟨e, he⟩ := Option.isSome_iff_exists.1
      (howned.resolve_right fun hp => absurd (hptr.symm.trans hp) (by decide))
    have hrep := (h.rep k e he).handle hptr
    have hrecord : ∀ r, record sys l (.localUnlock k) r = Function.update l k (some e.unlock) := by
      intro r
      simp only [record, hptr, Bool.false_eq_true, if_false, he, Option.map_some]
    simp only [step, localUnlock, hptr, Bool.false_eq_true, if_false, hrecord]
    rw [if_pos hrep.magic]
    by_cases hzero : (s.headers k).lock = 0
    · rw [if_neg fun hne => hne hzero]
      obtain ⟨hinv, -⟩ := h.setHeader he hptr (s.headers k) e.unlock rfl hrep.magic rfl rfl rfl (by
          intro hstayed
          have hlocks := hrep.locks hstayed
          rw [hzero] at hlocks
          simp only [Entry.unlock, hzero, ← hlocks]
          rfl)
      exact ⟨s, 0, rfl, kept_of_same rfl rfl rfl (fun _ _ _ _ hres => hres.elim)
        fun _ hin => hin.elim, hinv.congr rfl (Function.update_eq_self _ _).symm⟩
    · rw [if_pos hzero]
      have hpos : 0 < (s.headers k).lock.toNat := by
        rw [Nat.pos_iff_ne_zero]
        exact fun h0 => hzero (UInt8.toNat_inj.1 h0)
      obtain ⟨hinv, hsame⟩ := h.setHeader he hptr
        { s.headers k with lock := (s.headers k).lock - 1 } e.unlock rfl hrep.magic rfl rfl rfl (by
          intro hstayed
          have hlocks := hrep.locks hstayed
          have hone : (1 : UInt8) ≤ (s.headers k).lock := UInt8.le_iff_toNat_le.2 hpos
          simp only [Entry.unlock, UInt8.toNat_sub_of_le _ _ hone, hlocks]
          rfl)
      exact ⟨_, _, rfl, ⟨fun k' e' hk' _ => hsame k' e' hk', fun hf => absurd hf.2 hzero,
        fun _ _ _ _ hres => hres.elim, fun _ hin => hin.elim⟩, hinv⟩

/-- **A write is correct.** -/
theorem correct_write (h : Inv sys s l) {a : ℕ} (v : UInt8)
    (howned : ∃ k e, l k = some e ∧ address s k ≤ a ∧ a < address s k + e.size) :
    ∃ s' r, step sys s (.write a v) = some (s', r) ∧
      Kept s l (.write a v) s' r ∧ Inv sys s' (record sys l (.write a v) r) := by
  refine ⟨_, _, rfl, ⟨fun k e hk hne => ⟨rfl, fun i hi => ?_⟩, fun hf => hf.elim,
    fun _ _ _ _ hres => hres.elim, fun _ hin => hin.elim⟩, h.congr rfl rfl⟩
  simp only
  rw [put_of_not]
  rintro ⟨hle, hlt⟩
  exact hne ⟨by omega, by omega⟩

end Handles

end Memory

end Swinx
