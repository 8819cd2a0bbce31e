import Swinx.LTS.Basic
import Swinx.Memory.Represent

/-!
# Runs of a program with its memory

`LocalReAlloc` gives a handle another size, or makes a handle of a block.  It is the last of the
calls, and with it a run of a program is correct as long as its calls are allowed.

* `correct_of_allowed` — in a run whose calls are all allowed, every call is correct.
-/

namespace Swinx

namespace Memory

section Handles

variable {sys : System} {s s' : State} {l : Ledger} {k p r : ℕ} {e : Entry} {b : MemBlock}
  {flags : UInt32}

/-! ### A block becomes a handle -/

theorem localLock_unlock (hptr : isPointer r = false)
    (hmagic : (s.headers r).magic = MAGIC_LOCAL_USED) (hlock : (s.headers r).lock = 0) :
    ∃ s', localLock s r = some (s', (s.headers r).ptr) ∧ s'.mem = s.mem ∧
      ∀ mem, (localUnlock { s' with mem := mem } r).1 = { s with mem := mem } := by
  unfold localLock localUnlock
  simp only [hptr, Bool.false_eq_true, if_false]
  rw [if_pos hmagic]
  by_cases hnull : (s.headers r).ptr = 0
  · refine ⟨s, by rw [if_pos hnull, hnull], rfl, fun mem => ?_⟩
    rw [if_pos hmagic, if_neg fun hne => hne hlock]
  · have hlt : (s.headers r).lock < LMEM_LOCKCOUNT := by
      rw [hlock]
      decide
    refine ⟨s.setHeader r { s.headers r with lock := (s.headers r).lock + 1 },
      by rw [if_neg hnull, if_pos hlt], rfl, fun mem => ?_⟩
    have hself : (s.setHeader r { s.headers r with lock := (s.headers r).lock + 1 }).headers r =
        { s.headers r with lock := (s.headers r).lock + 1 } := Function.update_self _ _ _
    have hone : (s.headers r).lock + 1 ≠ 0 := by
      rw [hlock]
      decide
    have hback : { s.headers r with lock := (s.headers r).lock + 1 - 1 } = s.headers r := by
      rw [UInt8.add_sub_cancel]
    rw [hself, if_pos hmagic, if_pos hone, hback]
    simp only [State.setHeader, Function.update_idem, Function.update_eq_self]

/-- **A fixed block becomes a handle.** -/
theorem copyToHandle_spec (h : Inv sys s l) (hk : l k = some e) (hptr : isPointer k = true)
    (hheap : e.heap = sys.processHeap) (hmove : has flags LMEM_MOVEABLE = true) {size copied : ℕ}
    (hgranted : Granted sys s size) (hold : copied ≤ e.size) (hnew : copied ≤ size) :
    ∃ s' r, copyToHandle sys s k size copied flags = some (s', r) ∧ r ≠ 0 ∧
      Inv sys s' (Function.update (Function.update l k none) r
        (some ⟨sys.processHeap, size, true, 0, true⟩)) ∧
      (∀ k' e', l k' = some e' → k' ≠ k → Unchanged s s' k' e') ∧
      (∀ i < copied, s'.mem (address s' r + i) = s.mem (address s k + i)) ∧
      (has flags LMEM_ZEROINIT = true → ∀ i, copied ≤ i → i < size →
        s'.mem (address s' r + i) = 0) := by
  obtain ⟨s₁, r, hcall, hg⟩ :=
    (localAlloc_handle h hmove size).resolve_left fun hfail => hfail.1 hgranted
  have hkr : k ≠ r := by
    rintro rfl
    rw [hg.fresh] at hk
    cases hk
  have hrl : Function.update l r (some ⟨sys.processHeap, size, true, 0, true⟩) r =
      some ⟨sys.processHeap, size, true, 0, true⟩ := Function.update_self _ _ _
  have hrep := (hg.inv.rep r _ hrl).handle hg.handle
  have haddr : address s₁ r = (s₁.headers r).ptr := address_handle hg.handle
  obtain ⟨s₂, hlock, hmem, hunlock⟩ := localLock_unlock hg.handle hrep.magic hg.unlocked
  -- The state before the block is freed.
  obtain ⟨s₃, hs₃⟩ : ∃ s₃ : State, s₃ = { s₁ with
      mem := put s₁.mem (address s₁ r) copied fun i => s₁.mem (k + i) } := ⟨_, rfl⟩
  have hinv₃ : Inv sys s₃ (Function.update l r (some ⟨sys.processHeap, size, true, 0, true⟩)) := by
    rw [hs₃]
    exact hg.inv.congr rfl rfl
  have hk₃ : Function.update l r (some ⟨sys.processHeap, size, true, 0, true⟩) k = some e := by
    rw [Function.update_of_ne hkr, hk]
  obtain ⟨-, b, hb, hbheap, -⟩ := (hinv₃.rep k e hk₃).fixed hptr
  obtain ⟨s₄, hfree, -, hf⟩ := heapFree_spec hinv₃.ok
    (find_eq_some_iff.2 ⟨sys.process_isHeap, hb, hbheap.trans hheap⟩)
  have haddr₄ : ∀ k', address s₄ k' = address s₁ k' := fun k' => by
    rw [address_congr (congrFun hf.headers k'), hs₃]
    rfl
  have hmem₄ : s₄.mem = put s₁.mem (address s₁ r) copied fun i => s₁.mem (k + i) := by
    rw [hf.mem, hs₃]
  have hfirst := (h.rep k e hk).unchanged h.ok (hg.stays k e hk)
  refine ⟨s₄, r, ?_, hg.ne_zero, ?_, fun k' e' hk' hne => ?_, fun i hi => ?_,
    fun hzero i hlo hhi => ?_⟩
  · simp only [copyToHandle, hcall, hlock, hunlock, hmem, ← haddr, ← hs₃, hfree]
  · rw [Function.update_comm hkr]
    exact hinv₃.freed hf hk₃ hptr
  · have hk'r : k' ≠ r := by
      rintro rfl
      rw [hg.fresh] at hk'
      cases hk'
    have hsame := (h.rep k' e' hk').unchanged h.ok (hg.stays k' e' hk')
    refine hsame.trans ⟨haddr₄ k', fun i hi => ?_⟩
    -- What is copied is in the memory of the handle, and that is apart.
    have hk₁ : Function.update l r (some ⟨sys.processHeap, size, true, 0, true⟩) k' = some e' := by
      rw [Function.update_of_ne hk'r, hk']
    rw [hmem₄, put_of_not]
    rintro ⟨hlo, hhi⟩
    have := hg.inv.sound.apart k' r e' _ hk₁ hrl hk'r (by omega) (by simp only; omega)
    simp only at this
    omega
  · rw [haddr₄, hmem₄, put_of_lt hi, address_fixed hptr]
    have := hfirst.2 i (by omega)
    rwa [address_fixed hptr] at this
  · rw [haddr₄, hmem₄, put_of_not (by omega)]
    exact hg.zero hzero i hhi

/-! ### A handle with another size -/

/-- **The memory of a handle is elsewhere**, or has another size. -/
theorem Inv.moved (h : Inv sys s l) (s' : State) (ptr size : ℕ) (hk : l k = some e)
    (hptr : isPointer k = false) (hok : BlocksOK s')
    (hheaders : s'.headers = Function.update s.headers k { s.headers k with ptr := ptr })
    (hheader : s'.blocks (getHeader k) = s.blocks (getHeader k))
    (hkeeps : ∀ q c, ¬ Uses s k q → s.blocks q = some c → Keeps s s' q c)
    (hmem : StorageRep sys s' ptr size)
    (hnew : ptr ≠ 0 → Uses s k (ptr - storage) ∨ s.blocks (ptr - storage) = none) :
    Inv sys s' (Function.update l k (some { e with size := size })) ∧
      ∀ k' e', l k' = some e' → k' ≠ k → Unchanged s s' k' e' := by
  have hrep := (h.rep k e hk).handle hptr
  have hself : s'.headers k = { s.headers k with ptr := ptr } := by
    rw [hheaders, Function.update_self]
  have hstays : ∀ k' e', l k' = some e' → k' ≠ k → Stays s s' k' := fun k' e' hk' hne =>
    h.others hk hk' hne (by rw [hheaders, Function.update_of_ne hne]) hkeeps
  have hshort : Short size := by
    unfold Short
    rcases hmem with ⟨-, rfl⟩ | ⟨-, -, hle, -⟩
    · decide
    · unfold INT_MAX at hle
      omega
  refine ⟨h.update hok k (fun k' e' hk' hne => ?_) fun e' he' => ⟨⟨fun hl => ?_, ?_⟩, ?_⟩,
    fun k' e' hk' hne => (h.rep k' e' hk').unchanged h.ok (hstays k' e' hk' hne)⟩
  · rw [Function.update_of_ne hne] at hk'
    exact ⟨hk', hstays k' e' hk' hne⟩
  · rw [Function.update_self] at he'
    obtain rfl := Option.some.inj he'
    exact ⟨hshort, hrep.heap⟩
  · rw [Function.update_self] at he'
    obtain rfl := Option.some.inj he'
    rw [if_neg (by simp [hptr])]
    refine ⟨hrep.heap, by rw [hheader]; exact hrep.header, hrep.two_le, ?_, ?_, ?_⟩
    · rw [hself]
      exact hrep.magic
    · rw [hself]
      exact hmem
    · rw [hself]
      exact hrep.locks
  · intro k' e'' hk' _ hne q hq hq'
    rcases (uses_handle hptr).1 hq with rfl | ⟨hne0, rfl⟩
    · exact h.apart k' k e'' e hk' hk hne _ hq' ((uses_handle hptr).2 (.inl rfl))
    · rw [hself] at hne0 hq'
      rcases hnew hne0 with hu | hfresh
      · exact h.apart k' k e'' e hk' hk hne _ hq' hu
      · exact not_uses_of_fresh h hfresh hk' hq'

/-- What `LocalReAlloc` owes the program about a handle that has another size. -/
structure Moved (sys : System) (s s' : State) (l : Ledger) (k : ℕ) (e : Entry) (size : ℕ)
    (zero : Bool) : Prop where
  inv : Inv sys s' (Function.update l k (some { e with size := size }))
  others : ∀ k' e', l k' = some e' → k' ≠ k → Unchanged s s' k' e'
  kept : ∀ i < min e.size size, s'.mem (address s' k + i) = s.mem (address s k + i)
  zero : zero = true → ∀ i, e.size ≤ i → i < size → s'.mem (address s' k + i) = 0

theorem moved_of_resized (h : Inv sys s l) (hk : l k = some e) (hptr : isPointer k = false)
    (hnull : (s.headers k).ptr ≠ 0) {size : ℕ} (hpos : 0 < size) (hsize : size ≤ INT_MAX - storage)
    (hfind : find sys s sys.processHeap ((s.headers k).ptr - storage) = some b)
    (hr : Resized s s' ((s.headers k).ptr - storage) r b (heapFlags flags) (size + storage)) :
    Moved sys s (s'.setHeader k { s.headers k with ptr := r + storage }) l k e size
      (has flags LMEM_ZEROINIT) := by
  have hrep := (h.rep k e hk).handle hptr
  obtain ⟨b', hfind', hlen, hlt, hne⟩ := hrep.storage_ne hnull
  obtain rfl := Option.some.inj (hfind.symm.trans hfind')
  obtain ⟨-, -, hbheap⟩ := find_eq_some_iff.1 hfind
  obtain ⟨d, hd, -⟩ := hrep.header
  obtain ⟨c, hc, hcheap, hclen⟩ := hr.block
  have hrh : getHeader k ≠ r := by
    rintro rfl
    rw [hr.fresh hne.symm] at hd
    cases hd
  have hself : (s'.setHeader k { s.headers k with ptr := r + storage }).headers k =
      { s.headers k with ptr := r + storage } := Function.update_self _ _ _
  have hr0 := (hr.ok.aligned r c hc).2
  obtain ⟨hinv, hothers⟩ := h.moved (s'.setHeader k { s.headers k with ptr := r + storage })
    (r + storage) size hk hptr (hr.ok.congr rfl)
    (by simp only [State.setHeader, hr.headers]) (hr.others _ hne.symm hrh)
    (fun q c hu hq => hr.keeps q c hq fun heq =>
      hu ((uses_handle hptr).2 (.inr ⟨hnull, heq⟩)))
    (.inr ⟨by omega, hpos, hsize, c, by rwa [Nat.add_sub_cancel], hcheap.trans hbheap, hclen⟩)
    (fun _ => by
      rw [Nat.add_sub_cancel]
      rcases eq_or_ne r ((s.headers k).ptr - storage) with heq | hrne
      · exact .inl ((uses_handle hptr).2 (.inr ⟨hnull, heq⟩))
      · exact .inr (hr.fresh hrne))
  refine ⟨hinv, hothers, fun i hi => ?_, fun hflag i hlo hhi => ?_⟩
  · have hkept := hr.kept (storage + i) (by omega)
    have hplace : (s.headers k).ptr - storage + (storage + i) = (s.headers k).ptr + i := by omega
    rw [address_handle hptr, address_handle hptr, hself, Nat.add_assoc, ← hplace]
    exact hkept
  · have hzero := hr.zero ((zeroes_heapFlags flags).trans hflag) (storage + i) (by omega) (by omega)
    rw [address_handle hptr, hself, Nat.add_assoc]
    exact hzero

theorem moved_of_grown (h : Inv sys s l) (hk : l k = some e) (hptr : isPointer k = false)
    (hnull : (s.headers k).ptr = 0) {size : ℕ} (hpos : 0 < size) (hsize : size ≤ INT_MAX - storage)
    (hg : Grown s s' r b) (hbheap : b.heap = sys.processHeap) (hlen : b.len = size + storage)
    (hz : zeroes (heapFlags flags) = true → ∀ i < size + storage, s'.mem (r + i) = 0) :
    Moved sys s { s'.setHeader k { s.headers k with ptr := r + storage } with
      mem := put s'.mem r sizeofHandle (word k) } l k e size (has flags LMEM_ZEROINIT) := by
  have hrep := (h.rep k e hk).handle hptr
  obtain ⟨d, hd, -⟩ := hrep.header
  have hrh : getHeader k ≠ r := by
    rintro rfl
    rw [hg.fresh] at hd
    cases hd
  have hzero : e.size = 0 := by
    rcases hrep.memory with ⟨-, hzero⟩ | ⟨hlt, -⟩
    · exact hzero
    · omega
  have hr0 := (hg.ok.aligned r b hg.block).2
  have hlarge := hg.ok.large r b hg.block
  obtain ⟨s₁, hs₁⟩ : ∃ s₁ : State,
      s₁ = { s'.setHeader k { s.headers k with ptr := r + storage } with
        mem := put s'.mem r sizeofHandle (word k) } := ⟨_, rfl⟩
  have hself : s₁.headers k = { s.headers k with ptr := r + storage } := by
    rw [hs₁]
    exact Function.update_self _ _ _
  have hblocks : s₁.blocks = s'.blocks := by rw [hs₁]; rfl
  have hmem : s₁.mem = put s'.mem r sizeofHandle (word k) := by rw [hs₁]
  rw [← hs₁]
  obtain ⟨hinv, hothers⟩ := h.moved s₁ (r + storage) size hk hptr (hg.ok.congr hblocks)
    (by rw [hs₁]; simp only [State.setHeader, hg.headers])
    (by rw [hblocks, hg.others _ hrh])
    (fun q c _ hq => by
      obtain ⟨hq', hsame⟩ := hg.keeps q c hq
      refine ⟨by rw [hblocks, hq'], fun i hi => ?_⟩
      have hqr : q ≠ r := by
        rintro rfl
        rw [hg.fresh] at hq
        cases hq
      have := hg.ok.apart q r c b hq' hg.block hqr
      rw [hmem, put_of_not (by unfold sizeofHandle storage at *; omega), hsame i hi])
    (.inr ⟨by omega, hpos, hsize, b, by rw [Nat.add_sub_cancel, hblocks]; exact hg.block, hbheap,
      hlen⟩)
    (fun _ => .inr (by rw [Nat.add_sub_cancel]; exact hg.fresh))
  refine ⟨hinv, hothers, fun i hi => ?_, fun hflag i _ hi => ?_⟩
  · omega
  · have := hz ((zeroes_heapFlags flags).trans hflag) (storage + i) (by omega)
    rw [address_handle hptr, hself, Nat.add_assoc, hmem,
      put_of_not (by unfold sizeofHandle storage; omega)]
    exact this

theorem moved_of_freed (h : Inv sys s l) (hk : l k = some e) (hptr : isPointer k = false)
    (hnull : (s.headers k).ptr ≠ 0) (hf : Freed s s' ((s.headers k).ptr - storage)) {zero : Bool} :
    Moved sys s (s'.setHeader k { s.headers k with ptr := 0 }) l k e 0 zero := by
  obtain ⟨-, -, -, -, hne⟩ := ((h.rep k e hk).handle hptr).storage_ne hnull
  obtain ⟨hinv, hothers⟩ := h.moved (s'.setHeader k { s.headers k with ptr := 0 }) 0 0 hk hptr
    (hf.ok.congr rfl) (by simp only [State.setHeader, hf.headers])
    (hf.others _ hne.symm)
    (fun q c hu hq => by
      have hqs : q ≠ (s.headers k).ptr - storage := fun heq =>
        hu ((uses_handle hptr).2 (.inr ⟨hnull, heq⟩))
      exact ⟨(hf.others q hqs).trans hq, fun i _ => congrFun hf.mem _⟩)
    (.inl ⟨rfl, rfl⟩) (fun h0 => absurd rfl h0)
  exact ⟨hinv, hothers, fun i hi => by omega, fun _ i _ hi => by omega⟩

/-- **What `LocalReAlloc` does to a handle.** -/
theorem localReAllocHandle_spec (h : Inv sys s l) (hk : l k = some e) (hptr : isPointer k = false)
    (size : ℕ) (flags : UInt32) :
    (∃ s', localReAllocHandle sys s k size flags = some (s', 0) ∧ s'.blocks = s.blocks ∧
        s'.headers = s.headers ∧ s'.mem = s.mem) ∨
      ∃ s', localReAllocHandle sys s k size flags = some (s', k) ∧
        Moved sys s s' l k e size (has flags LMEM_ZEROINIT) := by
  have hrep := (h.rep k e hk).handle hptr
  unfold localReAllocHandle
  simp only
  by_cases hzero : size = 0
  · rw [if_neg (not_not.2 hzero)]
    by_cases hlock : (s.headers k).lock = 0
    · rw [if_pos hlock]
      right
      by_cases hnull : (s.headers k).ptr = 0
      · rw [if_neg (not_not.2 hnull)]
        have hsize : e.size = size := by
          rcases hrep.memory with ⟨-, h0⟩ | ⟨hlt, -⟩
          · rw [h0, hzero]
          · omega
        refine ⟨s, rfl, ?_, fun _ _ _ _ => Unchanged.refl _ _ _, fun _ _ => rfl, fun _ i _ hi => ?_⟩
        · rw [← hsize, Function.update_eq_self_iff.2 hk.symm]
          exact h
        · omega
      · rw [if_pos hnull]
        obtain ⟨b, hfind, -⟩ := hrep.storage_ne hnull
        obtain ⟨s₁, hfree, -, hf⟩ := heapFree_spec h.ok hfind
        rw [hfree, hzero]
        exact ⟨_, rfl, moved_of_freed h hk hptr hnull hf⟩
    · rw [if_neg hlock]
      exact .inl ⟨s, rfl, rfl, rfl, rfl⟩
  · rw [if_pos hzero]
    by_cases hsize : size ≤ INT_MAX - storage
    · have hwrap : NoWrap sys (size + storage) := noWrap_of_le (by
        unfold storage INT_MAX at *
        omega)
      rw [if_pos hsize]
      by_cases hnull : (s.headers k).ptr = 0
      · rw [if_neg (not_not.2 hnull)]
        rcases heapAlloc_spec h.ok sys.process_isHeap hwrap (heapFlags flags) with
          ⟨-, hcall⟩ | ⟨s₁, r, hcall, -, -, hg, hz⟩
        · exact .inl ⟨{ s with tick := s.tick + 1 }, by simp only [hcall, if_true], rfl, rfl, rfl⟩
        · simp only [hcall, if_neg hg.ne_zero]
          exact .inr ⟨_, rfl, moved_of_grown h hk hptr hnull (Nat.pos_of_ne_zero hzero) hsize hg rfl
            rfl hz⟩
      · rw [if_pos hnull]
        obtain ⟨b, hfind, -⟩ := hrep.storage_ne hnull
        have hpos := Nat.pos_of_ne_zero hzero
        by_cases hroom : size + storage ≤ b.allocSize
        · obtain ⟨s₁, hcall, -, hr⟩ := heapReAlloc_in_place h.ok hfind (heapFlags flags) hroom
          simp only [hcall, if_neg hr.pointer.2]
          exact .inr ⟨_, rfl, moved_of_resized h hk hptr hnull hpos hsize hfind hr⟩
        · rcases heapReAlloc_move h.ok hfind (heapFlags flags) hroom hwrap with
            ⟨-, hcall⟩ | ⟨s₁, r, hcall, -, -, -, hr⟩
          · exact .inl ⟨{ s with tick := s.tick + 1 }, by simp only [hcall, if_true], rfl, rfl, rfl⟩
          · simp only [hcall, if_neg hr.pointer.2]
            exact .inr ⟨_, rfl, moved_of_resized h hk hptr hnull hpos hsize hfind hr⟩
    · rw [if_neg hsize]
      exact .inl ⟨s, rfl, rfl, rfl, rfl⟩

/-! ### `LocalReAlloc` -/

theorem zeroes_inPlace (flags : UInt32) :
    zeroes (heapFlags flags ||| HEAP_REALLOC_IN_PLACE_ONLY) = has flags LMEM_ZEROINIT := by
  unfold heapFlags
  cases has flags LMEM_ZEROINIT <;> decide

theorem ne_zero_of_handle (hptr : isPointer k = false) : k ≠ 0 := by
  rintro rfl
  exact absurd hptr (by decide)

theorem correct_copyToHandle (h : Inv sys s l) (hk : l k = some e) (hptr : isPointer k = true)
    (hheap : e.heap = sys.processHeap) (hmove : has flags LMEM_MOVEABLE = true) {size : UInt64}
    (n copied : ℕ)
    (hstep : step sys s (.localReAlloc k size flags) = copyToHandle sys s k n copied flags)
    (hn : n = if has flags LMEM_MODIFY then e.size else size.toNat)
    (hcopied : copied = min e.size n) (hgranted : Granted sys s n) :
    ∃ s' r, step sys s (.localReAlloc k size flags) = some (s', r) ∧
      Kept s l (.localReAlloc k size flags) s' r ∧
      Inv sys s' (record sys l (.localReAlloc k size flags) r) := by
  obtain ⟨s', r, hcall, hr, hinv, hothers, hkept, hzero⟩ := copyToHandle_spec h hk hptr hheap hmove
    hgranted (hcopied ▸ min_le_left _ _) (hcopied ▸ min_le_right _ _)
  refine ⟨s', r, hstep.trans hcall, ⟨hothers, fun h0 => absurd h0 hr, ?_, ?_⟩, ?_⟩
  · rintro k' e' m zero ⟨rfl, rfl, rfl⟩ hk' -
    obtain rfl := Option.some.inj (hk'.symm.trans hk)
    rw [← hn]
    exact ⟨fun i hi => hkept i (hcopied ▸ hi), fun hflag i hlo hhi =>
      hzero hflag i (hcopied ▸ (min_le_left _ _).trans hlo) hhi⟩
  · rintro k' ⟨-, -, -, hfixed⟩ - -
    rw [hmove] at hfixed
    cases hfixed
  · simp only [record, if_neg hr, if_pos hptr, hk, Option.map_some]
    rwa [← hn]

theorem correct_localReAlloc_fixed (h : Inv sys s l) {size : UInt64} (hptr : isPointer k = true)
    (hmodify : has flags LMEM_MODIFY = false) (hfixed : has flags LMEM_MOVEABLE = false)
    (howned : (l k).isSome = true ∨ s.blocks k = none)
    (hfits : ∀ b, find sys s sys.processHeap k = some b →
      (size.toNat ≤ b.allocSize ∧ Short size.toNat) ∨
        (b.allocSize < size.toNat ∧ Refused sys s size.toNat)) :
    ∃ s' r, step sys s (.localReAlloc k size flags) = some (s', r) ∧
      Kept s l (.localReAlloc k size flags) s' r ∧
      Inv sys s' (record sys l (.localReAlloc k size flags) r) := by
  have hstep : step sys s (.localReAlloc k size flags) = heapReAlloc sys s sys.processHeap
      (heapFlags flags ||| HEAP_REALLOC_IN_PLACE_ONLY) k size.toNat := by
    simp only [step, localReAlloc, hmodify, hfixed, hptr, Bool.false_eq_true, if_false, if_true]
  rw [hstep]
  cases hfind : find sys s sys.processHeap k with
  | none =>
    refine ⟨s, 0, heapReAlloc_of_find_none hfind, ?_, h⟩
    exact kept_of_same rfl rfl rfl (fun _ _ _ _ _ => rfl) fun _ _ => rfl
  | some b =>
    obtain ⟨e, he, -, hsize, -⟩ := h.fixed_of_find hfind howned
    obtain ⟨-, -, hbheap⟩ := find_eq_some_iff.1 hfind
    rcases hfits b hfind with ⟨hroom, hshort⟩ | ⟨hroom, hrefused⟩
    · obtain ⟨s', hcall, -, hr⟩ := heapReAlloc_in_place h.ok hfind
        (heapFlags flags ||| HEAP_REALLOC_IN_PLACE_ONLY) hroom
      refine ⟨s', k, hcall, ⟨fun k' e' hk' hne => ?_, fun h0 => absurd h0 hr.pointer.2, ?_, ?_⟩, ?_⟩
      · exact (h.rep k' e' hk').unchanged h.ok (hr.stays (h.not_uses he hptr hk' hne))
      · rintro k' e' m zero ⟨rfl, rfl, rfl⟩ hk' -
        obtain rfl := Option.some.inj (hk'.symm.trans he)
        rw [hmodify, if_neg Bool.false_ne_true]
        exact hr.contents hptr hsize (zeroes_inPlace flags).trans
      · rintro k' ⟨rfl, -⟩ - -
        rfl
      · simp only [record, if_neg hr.pointer.2, if_pos hptr, he, Option.map_some, hmodify,
          Bool.false_eq_true, if_false]
        rw [← hbheap]
        exact h.resized hr he hptr (hbheap ▸ sys.process_isHeap) fun _ => ⟨hshort, hbheap⟩
    · refine ⟨_, 0, heapReAlloc_of_none hfind _ (not_le.2 hroom) hrefused, ?_, h.congr rfl rfl⟩
      exact kept_of_same rfl rfl rfl (fun _ _ _ _ _ => rfl) fun _ _ => rfl

theorem correct_localReAlloc_handle (h : Inv sys s l) {size : UInt64} (hptr : isPointer k = false)
    (hmodify : has flags LMEM_MODIFY = false) (howned : (l k).isSome = true) :
    ∃ s' r, step sys s (.localReAlloc k size flags) = some (s', r) ∧
      Kept s l (.localReAlloc k size flags) s' r ∧
      Inv sys s' (record sys l (.localReAlloc k size flags) r) := by
  obtain ⟨e, he⟩ := Option.isSome_iff_exists.1 howned
  have hstep : step sys s (.localReAlloc k size flags) =
      localReAllocHandle sys s k size.toNat flags := by
    simp only [step, localReAlloc, hmodify, hptr, Bool.false_eq_true, if_false]
  rw [hstep]
  rcases localReAllocHandle_spec h he hptr size.toNat flags with
    ⟨s', hcall, hblocks, hheaders, hmem⟩ | ⟨s', hcall, hm⟩
  · refine ⟨s', 0, hcall, ?_, h.congr hblocks hheaders⟩
    exact kept_of_same hblocks hheaders hmem (fun _ _ _ _ _ => rfl) fun _ _ => rfl
  · have hne := ne_zero_of_handle hptr
    refine ⟨s', k, hcall, ⟨hm.others, fun h0 => absurd h0 hne, ?_, ?_⟩, ?_⟩
    · rintro k' e' m zero ⟨rfl, rfl, rfl⟩ hk' -
      obtain rfl := Option.some.inj (hk'.symm.trans he)
      rw [hmodify, if_neg Bool.false_ne_true]
      exact ⟨hm.kept, hm.zero⟩
    · rintro k' ⟨rfl, -⟩ - -
      rfl
    · simp only [record, if_neg hne, hptr, hmodify, Bool.false_eq_true, if_false, he,
        Option.map_some]
      exact hm.inv

theorem correct_localReAlloc_modify (h : Inv sys s l) {size : UInt64}
    (hmodify : has flags LMEM_MODIFY = true)
    (hfixed : ¬ (isPointer k = true ∧ has flags LMEM_MOVEABLE = true))
    (howned : isPointer k = false → (l k).isSome = true) :
    ∃ s' r, step sys s (.localReAlloc k size flags) = some (s', r) ∧
      Kept s l (.localReAlloc k size flags) s' r ∧
      Inv sys s' (record sys l (.localReAlloc k size flags) r) := by
  simp only [step, localReAlloc, if_pos hmodify, if_neg hfixed]
  by_cases hdiscard : isPointer k = false ∧ has flags LMEM_DISCARDABLE = true
  · have hptr := hdiscard.1
    obtain ⟨e, he⟩ := Option.isSome_iff_exists.1 (howned hptr)
    have hrep := (h.rep k e he).handle hptr
    have hne := ne_zero_of_handle hptr
    obtain ⟨hinv, hsame⟩ := h.setHeader he hptr { s.headers k with
      flags := (s.headers k).flags ||| (LMEM_DISCARDABLE >>> 8).toUInt8 } e rfl hrep.magic rfl rfl
      rfl hrep.locks
    rw [if_pos hdiscard]
    refine ⟨_, k, rfl, ⟨fun k' e' hk' _ => hsame k' e' hk', fun h0 => absurd h0 hne, ?_, ?_⟩, ?_⟩
    · rintro k' e' m zero ⟨rfl, rfl, rfl⟩ hk' -
      obtain rfl := Option.some.inj (hk'.symm.trans he)
      rw [if_pos hmodify, min_self, (hsame k' e' he).1]
      exact ⟨(hsame k' e' he).2, fun _ i hlo hhi => by omega⟩
    · rintro k' ⟨rfl, -⟩ - -
      rfl
    · simp only [record, if_neg hne, hptr, hmodify, Bool.false_eq_true, if_false, if_true]
      rwa [Function.update_eq_self_iff.2 he.symm] at hinv
  · rw [if_neg hdiscard]
    exact ⟨s, 0, rfl, kept_of_same rfl rfl rfl (fun _ _ _ _ _ => rfl) fun _ _ => rfl, h⟩

/-- **`LocalReAlloc` is correct.** -/
theorem correct_localReAlloc (h : Inv sys s l) (size : UInt64)
    (howned : Owned sys s l (.localReAlloc k size flags))
    (hfits : Fits sys s (.localReAlloc k size flags)) :
    ∃ s' r, step sys s (.localReAlloc k size flags) = some (s', r) ∧
      Kept s l (.localReAlloc k size flags) s' r ∧
      Inv sys s' (record sys l (.localReAlloc k size flags) r) := by
  simp only [Owned, Fits] at howned hfits
  by_cases hcopy : isPointer k = true ∧ has flags LMEM_MOVEABLE = true
  · rw [if_pos hcopy] at howned
    obtain ⟨hptr, hmove⟩ := hcopy
    have hfits := hfits hptr
    rcases howned with ⟨rfl, hmodify⟩ | ⟨e, he, hheap⟩
    · refine ⟨s, 0, ?_, kept_of_same rfl rfl rfl (fun _ _ _ _ _ => rfl) fun _ _ => rfl, h⟩
      simp only [step, localReAlloc, hmodify, hptr, hmove, and_self, if_true]
    · have hsize : Memory.heapSize sys s sys.processHeap k = e.size :=
        hheap ▸ h.sound.heapSize k e he hptr
      have hk0 : k ≠ 0 := by
        rintro rfl
        rw [h.zero] at he
        cases he
      cases hmodify : has flags LMEM_MODIFY with
      | true =>
        rw [if_pos hmodify] at hfits
        refine correct_copyToHandle h he hptr hheap hmove e.size e.size ?_ ?_ (min_self _).symm
          (hsize ▸ hfits hmove hk0)
        · simp only [step, localReAlloc, hmodify, hptr, hmove, and_self, if_true, if_neg hk0, hsize]
        · rw [if_pos hmodify]
      | false =>
        rw [hmodify, if_neg Bool.false_ne_true, if_pos hmove] at hfits
        refine correct_copyToHandle h he hptr hheap hmove size.toNat (min e.size size.toNat) ?_ ?_
          rfl hfits
        · simp only [step, localReAlloc, hmodify, hptr, hmove, Bool.false_eq_true, if_false,
            if_true, hsize, Bool.true_eq_false]
        · rw [hmodify, if_neg Bool.false_ne_true]
  · rw [if_neg hcopy] at howned
    cases hptr : isPointer k with
    | true =>
      have hfixed : has flags LMEM_MOVEABLE = false :=
        Bool.eq_false_iff.2 fun hmove => hcopy ⟨hptr, hmove⟩
      cases hmodify : has flags LMEM_MODIFY with
      | true =>
        exact correct_localReAlloc_modify h hmodify hcopy fun hf => absurd (hptr.symm.trans hf)
          (by decide)
      | false =>
        have hfits := hfits hptr
        rw [hmodify, hfixed, if_neg Bool.false_ne_true, if_neg Bool.false_ne_true] at hfits
        rw [if_pos hptr] at howned
        exact correct_localReAlloc_fixed h hptr hmodify hfixed howned hfits
    | false =>
      rw [hptr, if_neg Bool.false_ne_true] at howned
      cases hmodify : has flags LMEM_MODIFY with
      | true => exact correct_localReAlloc_modify h hmodify hcopy fun _ => howned
      | false => exact correct_localReAlloc_handle h hptr hmodify howned

end Handles

section Runs

variable {sys : System} {s : State} {l : Ledger}

/-- **A call that is allowed is correct.** -/
theorem correct_of_inv (h : Inv sys s l) (c : Call) (howned : Owned sys s l c)
    (hfits : Fits sys s c) : ∃ s' r, step sys s c = some (s', r) ∧ Kept s l c s' r ∧
      Inv sys s' (record sys l c r) := by
  cases c with
  | heapAlloc hHeap dwFlags dwBytes => exact correct_heapAlloc h dwFlags dwBytes hfits
  | heapReAlloc hHeap dwFlags lpMem dwBytes =>
    exact correct_heapReAlloc h dwFlags dwBytes howned hfits
  | heapFree hHeap lpMem => exact correct_heapFree h howned
  | localAlloc flags size => exact correct_localAlloc h size hfits
  | localReAlloc hmem size flags => exact correct_localReAlloc h size howned hfits
  | localFree hmem => exact correct_localFree h howned
  | localLock hmem => exact correct_localLock h howned
  | localUnlock hmem => exact correct_localUnlock h howned
  | write a v => exact correct_write h v howned

/-- **A program and its memory**; `none` is undefined. -/
def lts (sys : System) : LTS (Option (State × Ledger)) Call where
  next w c := w.map fun x => (step sys x.1 c).map fun y => (y.1, record sys x.2 c y.2)

/-- There are no blocks. -/
def State.init (mem : ℕ → UInt8) (headers : ℕ → LocalHeader) (tick : ℕ) : State :=
  ⟨mem, fun _ => none, headers, tick⟩

theorem Inv.init (sys : System) (mem : ℕ → UInt8) (headers : ℕ → LocalHeader) (tick : ℕ) :
    Inv sys (State.init mem headers tick) fun _ => none := by
  refine ⟨⟨?_, ?_, ?_, ?_⟩, ?_, ?_⟩
  · rintro p b ⟨⟩
  · rintro p b ⟨⟩
  · rintro p b ⟨⟩
  · rintro p q b c ⟨⟩
  · rintro k e ⟨⟩
  · rintro k k' e e' ⟨⟩

/-- **The memory of a program**: as long as the calls of a program are allowed, every one of them
has a result, gives what it owes, and leaves the rest alone, whatever the system gives away. -/
theorem correct_of_allowed (sys : System) (mem : ℕ → UInt8) (headers : ℕ → LocalHeader)
    (tick : ℕ) (calls : List Call)
    (h : (lts sys).AllSteps (Allowed sys) (some (State.init mem headers tick, fun _ => none))
      calls) :
    (lts sys).AllSteps (Correct sys) (some (State.init mem headers tick, fun _ => none)) calls := by
  refine LTS.AllSteps.imp_of_invariant (I := fun w => ∃ s l, w = some (s, l) ∧ Inv sys s l) ?_ ?_
    ⟨_, _, rfl, Inv.init sys mem headers tick⟩ h
  · rintro w c ⟨s, l, rfl, hinv⟩ hallowed s₁ l₁ heq
    obtain ⟨rfl, rfl⟩ := Prod.mk.inj (Option.some.inj heq)
    obtain ⟨howned, hfits⟩ := hallowed s l rfl
    obtain ⟨s', r, hstep, hkept, hinv'⟩ := correct_of_inv hinv c howned hfits
    exact ⟨s', r, hstep, hkept, hinv'.sound⟩
  · rintro w c w' ⟨s, l, rfl, hinv⟩ hallowed hnext
    obtain ⟨howned, hfits⟩ := hallowed s l rfl
    obtain ⟨s', r, hstep, -, hinv'⟩ := correct_of_inv hinv c howned hfits
    refine ⟨s', record sys l c r, ?_, hinv'⟩
    simp only [lts, Option.map_some, hstep, Option.some.injEq] at hnext
    exact hnext.symm

/-! ### A system -/

/-- A system that gives away one page after the other, as long as there is nothing. -/
def ascending (page : ℕ) (hpos : 0 < page) (hdvd : 16 ∣ page) (hlt : page < 2147483648) :
    System where
  pageSize := page
  page_pos := hpos
  page_dvd := hdvd
  page_lt := hlt
  isHeap h := h = 1
  processHeap := 1
  process_isHeap := by decide
  posixMemalign t bs n :=
    if page * (t + 1) + n ≤ addresses ∧ (List.range (page * (t + 1) + n + sizeofHandle)).all
        (fun q => (bs q).all fun b => q + b.allocSize ≤ page * (t + 1)) = true then
      some (page * (t + 1), fun _ => 0)
    else none
  memalign_free := by
    intro t bs n p c h
    split_ifs at h with hfree
    obtain ⟨rfl, -⟩ := Prod.mk.inj (Option.some.inj h)
    refine ⟨Nat.dvd_mul_right _ _, Nat.mul_pos hpos t.succ_pos, hfree.1, fun q b hq => ?_⟩
    unfold Apart
    by_cases hin : q < page * (t + 1) + n + sizeofHandle
    · have := List.all_eq_true.1 hfree.2 q (List.mem_range.2 hin)
      rw [hq, Option.all_some, decide_eq_true_eq] at this
      exact .inr this
    · exact .inl (not_lt.1 hin)

/-- With the pages that there are. -/
def usual : System := ascending 4096 (by decide) (by decide) (by decide)

/-- With pages that a computation can look through. -/
def small : System := ascending 64 (by decide) (by decide) (by decide)

theorem usual_of_free {t n : ℕ} {bs : ℕ → Option MemBlock}
    (hle : 4096 * (t + 1) + n ≤ addresses)
    (hfree : ∀ q b, bs q = some b → q + b.allocSize ≤ 4096 * (t + 1)) :
    usual.posixMemalign t bs n = some (4096 * (t + 1), fun _ => 0) := by
  refine if_pos ⟨hle, List.all_eq_true.2 fun q _ => ?_⟩
  cases hq : bs q with
  | none => rfl
  | some b =>
    rw [Option.all_some, decide_eq_true_eq]
    exact hfree q b hq

theorem usual_first (mem : ℕ → UInt8) (headers : ℕ → LocalHeader) :
    ∃ s, step usual (State.init mem headers 0) (.heapAlloc 1 0 1) = some (s, 4104) ∧
      s.tick = 1 ∧ s.blocks = Function.update (fun _ => none) 4104 (some ⟨1, 1, 4088⟩) := by
  have hanswer : usual.posixMemalign 0 (fun _ => none) (usual.bufLen 1) =
      some (4096, fun _ => 0) := usual_of_free (by decide) (by rintro q b ⟨⟩)
  rcases heapAlloc_spec (Inv.init usual mem headers 0).ok (show usual.isHeap 1 = true by
    decide) (show NoWrap usual 1 by unfold NoWrap; decide) 0 with
    ⟨hnone, -⟩ | ⟨s, r, hcall, ⟨p, content, hp, rfl, hblocks⟩, htick, -⟩
  · exact absurd (hanswer.symm.trans hnone) (by simp)
  · obtain ⟨rfl, -⟩ := Prod.mk.inj (Option.some.inj (hp.symm.trans hanswer))
    exact ⟨s, hcall, htick, hblocks⟩

theorem usual_second {s : State} (htick : s.tick = 1)
    (hblocks : s.blocks = Function.update (fun _ => none) 4104 (some ⟨1, 1, 4088⟩)) :
    usual.posixMemalign s.tick s.blocks (usual.bufLen 5000) = some (8192, fun _ => 0) := by
  rw [htick, hblocks]
  refine usual_of_free (by decide) fun q b hq => ?_
  rw [Function.update_apply] at hq
  split_ifs at hq with hq4104
  obtain rfl := Option.some.inj hq
  simp only [hq4104]
  decide

instance decidableNoWrap (sys : System) (dwBytes : ℕ) : Decidable (NoWrap sys dwBytes) :=
  inferInstanceAs (Decidable (_ < _))

/-- A test that is enough for a call to be allowed. -/
def check (sys : System) (s : State) (l : Ledger) : Call → Bool
  | .heapAlloc _ _ dwBytes => NoWrap sys dwBytes.toNat
  | .heapReAlloc _ dwFlags lpMem dwBytes =>
    (l lpMem).isSome && decide (NoWrap sys dwBytes.toNat) &&
      !has dwFlags HEAP_REALLOC_IN_PLACE_ONLY
  | .localAlloc flags _ => has flags LMEM_MOVEABLE
  | .localReAlloc hmem _ _ => !isPointer hmem && (l hmem).isSome
  | .heapFree _ k | .localFree k | .localLock k | .localUnlock k => (l k).isSome
  | .write a _ => (List.range (a + 1)).any fun k =>
    (l k).any fun e => address s k ≤ a ∧ a < address s k + e.size

theorem allowed_of_check {w : Option (State × Ledger)} {c : Call}
    (h : (w.all fun x => check sys x.1 x.2 c) = true) : Allowed sys w c := by
  rintro s l rfl
  rw [Option.all_some] at h
  cases c with
  | heapAlloc hHeap dwFlags dwBytes => exact ⟨trivial, fun _ => .inr (of_decide_eq_true h)⟩
  | heapReAlloc hHeap dwFlags lpMem dwBytes =>
    simp only [check, Bool.and_eq_true, decide_eq_true_eq, Bool.not_eq_true'] at h
    exact ⟨.inl h.1.1, fun _ _ => .inr (.inr ⟨h.1.2, h.2⟩)⟩
  | heapFree hHeap lpMem => exact ⟨.inl h, trivial⟩
  | localAlloc flags size => exact ⟨trivial, fun hf => absurd (h.symm.trans hf) (by decide)⟩
  | localReAlloc hmem size flags =>
    simp only [check, Bool.and_eq_true, Bool.not_eq_true'] at h
    simp [Owned, Fits, h.1, h.2]
  | localFree hmem => exact ⟨.inl h, trivial⟩
  | localLock hmem => exact ⟨h, trivial⟩
  | localUnlock hmem => exact ⟨.inl h, trivial⟩
  | write a v =>
    obtain ⟨k, -, hk⟩ := List.any_eq_true.1 h
    obtain ⟨e, he, hin⟩ := Option.any_eq_true _ _ |>.1 hk
    exact ⟨⟨k, e, he, of_decide_eq_true hin⟩, trivial⟩

/-- A block is written to and grows; a handle is locked, written to, resized, unlocked, freed. -/
def sampleCalls : List Call :=
  [.heapAlloc 1 0 1, .write 72 7, .localAlloc (LMEM_MOVEABLE ||| LMEM_ZEROINIT) 3,
    .localLock 138, .write 218 9, .localReAlloc 138 40 LMEM_MOVEABLE, .localUnlock 138,
    .heapReAlloc 1 HEAP_ZERO_MEMORY 72 100, .write 363 5, .localFree 138, .heapFree 1 264]

theorem correct_sampleCalls : (lts small).AllSteps (Correct small)
    (some (State.init (fun _ => 0) (fun _ => ⟨0, 0, 0, 0⟩) 0, fun _ => none)) sampleCalls := by
  refine correct_of_allowed small (fun _ => 0) (fun _ => ⟨0, 0, 0, 0⟩) 0 _ ?_
  have hcheck : (lts small).AllSteps
      (fun w c => (w.all fun x => check small x.1 x.2 c) = true)
      (some (State.init (fun _ => 0) (fun _ => ⟨0, 0, 0, 0⟩) 0, fun _ => none)) sampleCalls := by
    decide +kernel
  exact hcheck.imp_of_invariant (I := fun _ => True) (fun _ _ _ h => allowed_of_check h)
    (fun _ _ _ _ _ _ => trivial) trivial

/-- **A block that is to stay is moved**, by calls of which each is given what it owns. -/
theorem moved_in_place : ¬ ∀ (sys : System) (mem : ℕ → UInt8) (headers : ℕ → LocalHeader)
    (tick : ℕ) (calls : List Call),
    (lts sys).AllSteps (fun w c => ∀ s l, w = some (s, l) → Owned sys s l c)
      (some (State.init mem headers tick, fun _ => none)) calls →
    (lts sys).AllSteps (Correct sys) (some (State.init mem headers tick, fun _ => none)) calls := by
  intro h
  obtain ⟨s, hstep, htick, hblocks⟩ := usual_first (fun _ => 0) fun _ => ⟨0, 0, 0, 0⟩
  have hnext : (lts usual).next
      (some (State.init (fun _ => 0) (fun _ => ⟨0, 0, 0, 0⟩) 0, fun _ => none))
      (.heapAlloc 1 0 1) = some (some (s, Function.update (fun _ => none) 4104
        (some ⟨1, 1, false, 0, true⟩))) := by
    simp only [lts, Option.map_some, hstep]
    rfl
  have hcorrect := h usual (fun _ => 0) (fun _ => ⟨0, 0, 0, 0⟩) 0
    [.heapAlloc 1 0 1, .heapReAlloc 1 HEAP_REALLOC_IN_PLACE_ONLY 4104 5000] (by
      refine fun w hw => ⟨fun _ _ _ => trivial, fun w' _ => ⟨?_, trivial⟩⟩
      obtain rfl := Option.some.inj (hnext.symm.trans hw)
      rintro s' l heq
      obtain ⟨rfl, rfl⟩ := Prod.mk.inj (Option.some.inj heq)
      exact .inl rfl)
  obtain ⟨s', r, hcall, hkept, -⟩ := ((hcorrect _ hnext).2 _ rfl).1 s _ rfl
  -- The block has no room, and there is memory.
  have hok : BlocksOK s := by
    obtain ⟨s₁, r₁, hstep₁, -, hinv⟩ := correct_of_inv (Inv.init usual (fun _ => 0)
      (fun _ => ⟨0, 0, 0, 0⟩) 0) (.heapAlloc 1 0 1) trivial fun _ => .inr (by unfold NoWrap; decide)
    obtain ⟨rfl, -⟩ := Prod.mk.inj (Option.some.inj (hstep.symm.trans hstep₁))
    exact hinv.ok
  have hfind : find usual s 1 4104 = some ⟨1, 1, 4088⟩ :=
    find_eq_some_iff.2 ⟨by decide, by rw [hblocks, Function.update_self], rfl⟩
  rcases heapReAlloc_move hok hfind HEAP_REALLOC_IN_PLACE_ONLY (show ¬ 5000 ≤ 4088 by decide)
    (show NoWrap usual 5000 by unfold NoWrap; decide) with
    ⟨hnone, -⟩ | ⟨s₂, r₂, hcall₂, -, hne, -, hr⟩
  · exact absurd ((usual_second htick hblocks).symm.trans hnone) (by simp)
  · obtain ⟨-, rfl⟩ := Prod.mk.inj (Option.some.inj (hcall₂.symm.trans hcall))
    exact hne (hkept.inPlace 4104 ⟨rfl, by decide⟩ rfl hr.pointer.2)

end Runs

end Memory

end Swinx
