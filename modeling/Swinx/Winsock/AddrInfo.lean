import Swinx.Data.Cells
import Swinx.Data.Uniconv
import Swinx.Winsock.AddressText

/-!
# The list of addresses in one block

`buildAddrInfoA` and `buildAddrInfoW` put the nodes of a list of addresses, the addresses and the
names behind each other into one block, so that one `free` gives all of it back.  The two differ in
the type of a character only.  Pointers are offsets in the block, of eight bytes.

* `ran_foldl` — the chain, the addresses and the names are always right.
* `places_ranges` — the parts of the block do not overlap.
* `laidOut_iff` — all is aligned if and only if each name but the last fills up eight bytes.
-/

namespace Swinx

namespace AddrInfo

open SockText Block

/-- `PsxAddrInfo` -/
structure PsxAddrInfo where
  family : ℤ
  sockType : ℤ
  protocol : ℤ
  flags : UInt32
  addr : PsxAddr
  /-- Up to its terminator -/
  canonName : Bytes
  canonName_ne_zero : ∀ b ∈ canonName, b ≠ 0

def PsxAiCanonName : UInt32 := 1

/-- What is stored in the block. -/
inductive Value
  | int (n : ℤ)
  | size (n : ℕ)
  | pointer (p : Option ℕ)
  | char (c : ℕ)
  | sockaddr (sa : SockAddr)

/-- `sizeof(ADDRINFOA)` and `sizeof(ADDRINFOW)` -/
def sizeofAddrInfo : ℕ := 48

/-- `sizeof(SOCKADDR_STORAGE)` -/
def sizeofStorage : ℕ := 128

/-- The name is to be copied. -/
def PsxAddrInfo.HasName (info : PsxAddrInfo) : Prop :=
  info.canonName ≠ [] ∧ info.flags &&& PsxAiCanonName ≠ 0

instance decidableHasName (info : PsxAddrInfo) : Decidable info.HasName :=
  inferInstanceAs (Decidable (_ ∧ _))

section Code

variable (w : ℕ)

/-- `total`, for characters of `w` bytes. -/
def total : List PsxAddrInfo → ℕ
  | [] => 0
  | info :: list =>
    sizeofAddrInfo + sizeofStorage + (info.canonName.length + 1) * w + total list

/-- The characters of a name and the terminator. -/
def storeName (m : Block Value) (cursor : ℕ) : Bytes → Block Value
  | [] => m.store cursor w (.char 0)
  | b :: bs => storeName (m.store cursor w (.char b.toNat)) (cursor + w) bs

/-- The fields of a node that are always set. -/
def nodeFields (info : PsxAddrInfo) (addrLen storage : ℕ) : List (Member Value) :=
  [⟨0, 4, .int 0⟩, ⟨4, 4, .int info.family⟩, ⟨8, 4, .int info.sockType⟩,
    ⟨12, 4, .int info.protocol⟩, ⟨16, 8, .size addrLen⟩, ⟨32, 8, .pointer (some storage)⟩,
    ⟨40, 8, .pointer none⟩]

/-- The offset of `ai_canonname`. -/
def aiCanonname : ℕ := 24

/-- The offset of `ai_next`. -/
def aiNext : ℕ := 40

/-- What the loop keeps. -/
structure Loop where
  memory : Block Value
  head : Option ℕ
  /-- The node before. -/
  prev : Option ℕ
  /-- The next free byte. -/
  cursor : ℕ

/-- The address and the fields of a node. -/
def storeNode (m : Block Value) (info : PsxAddrInfo) (node storage : ℕ) : Block Value :=
  match addrToWin info.addr sizeofStorage with
  | none => storeFields node m (nodeFields info 0 storage)
  | some (sa, addrLen) =>
    storeFields node (m.store storage addrLen.toNat (.sockaddr sa))
      (nodeFields info addrLen.toNat storage)

/-- Everything of an entry but the link to it. -/
def storeEntry (m : Block Value) (info : PsxAddrInfo) (node : ℕ) : Block Value :=
  let storage := node + sizeofAddrInfo
  let cursor := storage + sizeofStorage
  let m := storeNode m info node storage
  if info.HasName then
    (storeName w m cursor info.canonName).store (node + aiCanonname) 8 (.pointer (some cursor))
  else m

/-- The bytes that the cursor goes on by for the name. -/
def nameSize (info : PsxAddrInfo) : ℕ :=
  if info.HasName then (info.canonName.length + 1) * w else 0

/-- A round of the loop. -/
def round (s : Loop) (info : PsxAddrInfo) : Loop :=
  let node := s.cursor
  let m := storeEntry w s.memory info node
  let cursor := node + sizeofAddrInfo + sizeofStorage + nameSize w info
  match s.prev with
  | some prev => ⟨m.store (prev + aiNext) 8 (.pointer (some node)), s.head, some node, cursor⟩
  | none => ⟨m, some node, some node, cursor⟩

/-- The block, its size and the head of the list. -/
structure Built where
  total : ℕ
  memory : Block Value
  head : Option ℕ

/-- Both functions, for characters of `w` bytes; without memory they return `NULL`. -/
def buildAddrInfo (memory : Bool) (list : List PsxAddrInfo) : Option Built :=
  if memory then
    let s := list.foldl (round w) ⟨fun _ => .zero, none, none, 0⟩
    some ⟨total w list, s.memory, s.head⟩
  else none

end Code

def buildAddrInfoA (memory : Bool) (list : List PsxAddrInfo) : Option Built :=
  buildAddrInfo 1 memory list

def buildAddrInfoW (wide : Uniconv.Wide) (memory : Bool) (list : List PsxAddrInfo) :
    Option Built :=
  buildAddrInfo wide.size memory list

/-! ### What is to be found in the block -/

/-- A pointer is read; cleared memory is `NULL`. -/
def Points (m : Block Value) (o : ℕ) (p : Option ℕ) : Prop :=
  Stored m o 8 (.pointer p) ∨ (p = none ∧ Cleared m o 8)

/-- The characters of a name stand at `o`, with a terminator. -/
def Text (w : ℕ) (m : Block Value) : ℕ → Bytes → Prop
  | o, [] => Stored m o w (.char 0)
  | o, b :: bs => Stored m o w (.char b.toNat) ∧ Text w m (o + w) bs

/-- From `p` one comes to these nodes by following `ai_next`. -/
inductive Follows (m : Block Value) : Option ℕ → List ℕ → Prop
  | nil : Follows m none []
  | cons {node next nodes} : Points m (node + aiNext) next → Follows m next nodes →
    Follows m (some node) (node :: nodes)

/-- Where the parts of an entry are; the name with its size. -/
structure Placed where
  node : ℕ
  storage : ℕ
  name : Option (ℕ × ℕ)

/-- The ranges of the parts, by their offsets and sizes. -/
def Placed.ranges (p : Placed) : List (ℕ × ℕ) :=
  (p.node, sizeofAddrInfo) :: (p.storage, sizeofStorage) :: p.name.toList

/-- Ranges without a byte in common. -/
def Apart (a b : ℕ × ℕ) : Prop := a.1 + a.2 ≤ b.1 ∨ b.1 + b.2 ≤ a.1

/-- The entry is read at its place. -/
structure Reads (w : ℕ) (m : Block Value) (info : PsxAddrInfo) (p : Placed) : Prop where
  flags : Stored m p.node 4 (.int 0)
  family : Stored m (p.node + 4) 4 (.int info.family)
  sockType : Stored m (p.node + 8) 4 (.int info.sockType)
  protocol : Stored m (p.node + 12) 4 (.int info.protocol)
  /-- The address is that of the entry. -/
  addr : ∃ sa len, addrToWin info.addr sizeofStorage = some (sa, len) ∧
    Stored m (p.node + 16) 8 (.size len.toNat) ∧
    Stored m (p.node + 32) 8 (.pointer (some p.storage)) ∧
    Stored m p.storage len.toNat (.sockaddr sa)
  canonname : Points m (p.node + aiCanonname) (p.name.map Prod.fst)
  named : info.HasName → ∃ o, p.name = some (o, (info.canonName.length + 1) * w) ∧
    Text w m o info.canonName
  unnamed : ¬info.HasName → p.name = none

/-- **A list laid out in a block**: following `ai_next` one comes to the entries in their order;
their parts are in the block, do not overlap and are aligned. -/
structure LaysOut (w : ℕ) (list : List PsxAddrInfo) (r : Built) (ps : List Placed) : Prop where
  follows : Follows r.memory r.head (ps.map Placed.node)
  reads : List.Forall₂ (Reads w r.memory) list ps
  /-- Nothing is outside of the block. -/
  inside : ∀ range ∈ ps.flatMap Placed.ranges, range.1 + range.2 ≤ r.total
  /-- Nothing overlaps. -/
  disjoint : (ps.flatMap Placed.ranges).Pairwise Apart
  aligned : ∀ p ∈ ps, p.node % 8 = 0 ∧ ∀ range ∈ p.name, range.1 % w = 0

/-- The list is laid out in the block that is returned. -/
def LaidOut (w : ℕ) (list : List PsxAddrInfo) (built : Option Built) : Prop :=
  ∀ r ∈ built, ∃ ps, LaysOut w list r ps

/-! ### An entry -/

variable {w : ℕ} {m m' : Block Value} {info : PsxAddrInfo} {node o n : ℕ}

theorem Points.congr {p : Option ℕ} (h : Points m o p) (ha : Agree m m' o 8) : Points m' o p :=
  h.imp (fun hs => hs.congr ha) fun hc => ⟨hc.1, hc.2.congr ha⟩

theorem Points.unique {p q : Option ℕ} (h : Points m o p) (h' : Points m o q) : p = q := by
  rcases h with h | ⟨rfl, h⟩ <;> rcases h' with h' | ⟨rfl, h'⟩
  · injection h.unique h' (by omega)
  · exact absurd h' (h.not_cleared (by omega))
  · exact absurd h (h'.not_cleared (by omega))
  · rfl

theorem Text.congr {bs : Bytes} (h : Text w m o bs)
    (ha : Agree m m' o ((bs.length + 1) * w)) : Text w m' o bs := by
  induction bs generalizing o with
  | nil => exact Stored.congr h (ha.mono le_rfl (by simp))
  | cons b bs ih =>
    rw [List.length_cons, Nat.add_mul, Nat.one_mul] at ha
    exact ⟨h.1.congr (ha.mono le_rfl (by omega)), ih h.2 (ha.mono (by omega) (by omega))⟩

theorem agree_storeName {c : ℕ} (bs : Bytes) (h : o + n ≤ c ∨ c + (bs.length + 1) * w ≤ o) :
    Agree m (storeName w m c bs) o n := by
  induction bs generalizing m c with
  | nil => exact agree_store (by simpa using h)
  | cons b bs ih =>
    rw [List.length_cons, Nat.add_mul, Nat.one_mul] at h
    exact (agree_store (by omega)).trans (ih (by omega))

theorem text_storeName (bs : Bytes) : Text w (storeName w m o bs) o bs := by
  induction bs generalizing m o with
  | nil => exact stored_store
  | cons b bs ih => exact ⟨stored_store.congr (agree_storeName bs (.inl le_rfl)), ih⟩

theorem addrToWin_storage (a : PsxAddr) :
    ∃ sa len, addrToWin a sizeofStorage = some (sa, len) ∧ len.toNat ≤ sizeofStorage := by
  unfold addrToWin sizeofIn sizeofIn6 sizeofStorage
  cases a.family with
  | inet => exact ⟨_, _, if_pos (by decide), by decide⟩
  | inet6 => exact ⟨_, _, if_pos (by decide), by decide⟩

theorem pairwise_nodeFields (addrLen storage : ℕ) :
    (nodeFields info addrLen storage).Pairwise Member.Disjoint := by
  simp [nodeFields, Member.Disjoint]

/-- The fields of a node are in the node, outside of `ai_canonname`. -/
theorem mem_nodeFields {addrLen storage : ℕ} {f : Member Value}
    (hf : f ∈ nodeFields info addrLen storage) :
    f.offset + f.size ≤ aiCanonname ∨
      aiCanonname + 8 ≤ f.offset ∧ f.offset + f.size ≤ sizeofAddrInfo := by
  unfold aiCanonname sizeofAddrInfo
  simp only [nodeFields, List.mem_cons, List.not_mem_nil, or_false] at hf
  rcases hf with rfl | rfl | rfl | rfl | rfl | rfl | rfl <;> simp

theorem agree_storeNode
    (h : o + n ≤ node ∨ node + sizeofAddrInfo + sizeofStorage ≤ o ∨
      o = node + aiCanonname ∧ n = 8) :
    Agree m (storeNode m info node (node + sizeofAddrInfo)) o n := by
  obtain ⟨sa, len, heq, hlen⟩ := addrToWin_storage info.addr
  rw [storeNode, heq]
  have hsize : aiCanonname + 8 ≤ sizeofAddrInfo := by decide
  refine (agree_store ?_).trans (agree_storeFields fun f hf => ?_)
  · omega
  · have := mem_nodeFields hf
    omega

/-- Where the entry at `node` is. -/
def placed (w : ℕ) (node : ℕ) (info : PsxAddrInfo) : Placed where
  node := node
  storage := node + sizeofAddrInfo
  name :=
    if info.HasName then
      some (node + sizeofAddrInfo + sizeofStorage, (info.canonName.length + 1) * w)
    else none

/-- Where the next entry begins. -/
def next (w : ℕ) (node : ℕ) (info : PsxAddrInfo) : ℕ :=
  node + sizeofAddrInfo + sizeofStorage + nameSize w info

theorem agree_storeEntry (h : o + n ≤ node ∨ next w node info ≤ o) :
    Agree m (storeEntry w m info node) o n := by
  unfold next nameSize at h
  have hsize : aiCanonname + 8 ≤ sizeofAddrInfo := by decide
  unfold storeEntry
  dsimp only
  split_ifs at h ⊢ with hname
  · exact ((agree_storeNode (by omega)).trans (agree_storeName _ (by omega))).trans
      (agree_store (by omega))
  · exact agree_storeNode (by omega)

/-- An entry is read as long as nothing but `ai_next` changes. -/
theorem Reads.congr (h : Reads w m info (placed w node info)) (ha : Agree m m' node aiNext)
    (ha' : Agree m m' (node + sizeofAddrInfo) (sizeofStorage + nameSize w info)) :
    Reads w m' info (placed w node info) := by
  have hnext : aiNext = 40 := rfl
  have hcanon : aiCanonname = 24 := rfl
  refine ⟨?_, ?_, ?_, ?_, ?_, ?_, ?_, h.unnamed⟩
  · exact h.flags.congr (ha.mono le_rfl (by simp only [placed]; omega))
  · exact h.family.congr (ha.mono (by simp only [placed]; omega) (by simp only [placed]; omega))
  · exact h.sockType.congr (ha.mono (by simp only [placed]; omega) (by simp only [placed]; omega))
  · exact h.protocol.congr (ha.mono (by simp only [placed]; omega) (by simp only [placed]; omega))
  · obtain ⟨sa, len, heq, h1, h2, h3⟩ := h.addr
    obtain ⟨sa', len', heq', hlen⟩ := addrToWin_storage info.addr
    rw [heq] at heq'
    cases heq'
    refine ⟨sa, len, heq, ?_, ?_, ?_⟩
    · exact h1.congr (ha.mono (by simp only [placed]; omega) (by simp only [placed]; omega))
    · exact h2.congr (ha.mono (by simp only [placed]; omega) (by simp only [placed]; omega))
    · exact h3.congr (ha'.mono le_rfl (by simp only [placed]; omega))
  · exact h.canonname.congr
      (ha.mono (by simp only [placed]; omega) (by simp only [placed]; omega))
  · intro hname
    obtain ⟨o, ho, htext⟩ := h.named hname
    refine ⟨o, ho, htext.congr (ha'.mono ?_ ?_)⟩ <;>
      simp only [placed, if_pos hname, Option.some.injEq, Prod.mk.injEq, and_true] at ho
    · omega
    · simp only [nameSize, if_pos hname]
      omega

theorem agree_name (h : o + n ≤ node + aiCanonname ∨
      node + aiCanonname + 8 ≤ o ∧ o + n ≤ node + sizeofAddrInfo + sizeofStorage) :
    Agree (storeNode m info node (node + sizeofAddrInfo)) (storeEntry w m info node) o n := by
  have hsize : aiCanonname ≤ sizeofAddrInfo := by decide
  unfold storeEntry
  dsimp only
  split_ifs
  · exact (agree_storeName _ (by omega)).trans (agree_store (by omega))
  · exact fun _ _ _ => rfl

/-- **An entry is read where it was put**, if the block was clear there. -/
theorem reads_storeEntry (w : ℕ) (info : PsxAddrInfo) (hclear : Cleared m (node + aiCanonname) 8) :
    Reads w (storeEntry w m info node) info (placed w node info) ∧
      Stored (storeEntry w m info node) (node + aiNext) 8 (.pointer none) := by
  have hsize : aiCanonname + 8 ≤ sizeofAddrInfo := by decide
  obtain ⟨sa, len, heq, hlen⟩ := addrToWin_storage info.addr
  have hnode : storeNode m info node (node + sizeofAddrInfo) =
      storeFields node (m.store (node + sizeofAddrInfo) len.toNat (.sockaddr sa))
        (nodeFields info len.toNat (node + sizeofAddrInfo)) := by
    rw [storeNode, heq]
  -- all fields but `ai_canonname` are those of the list
  have hfield : ∀ f ∈ nodeFields info len.toNat (node + sizeofAddrInfo),
      Stored (storeEntry w m info node) (node + f.offset) f.size f.value := by
    intro f hf
    refine Stored.congr (m := storeNode m info node (node + sizeofAddrInfo)) ?_ (agree_name ?_)
    · rw [hnode]
      exact Stored.of_storeFields (pairwise_nodeFields _ _) f hf
    · have := mem_nodeFields hf
      omega
  unfold nodeFields at hfield
  simp only [List.forall_mem_cons] at hfield
  obtain ⟨hflags, hfamily, htype, hprotocol, hlength, haddr, hnext, -⟩ := hfield
  refine ⟨⟨hflags, hfamily, htype, hprotocol, ⟨sa, len, heq, hlength, haddr, ?_⟩, ?_, ?_, ?_⟩,
    hnext⟩
  · refine Stored.congr (m := storeNode m info node (node + sizeofAddrInfo)) ?_ (agree_name ?_)
    · rw [hnode]
      refine stored_store.congr (agree_storeFields fun f hf => ?_)
      have := mem_nodeFields hf
      simp only [placed]
      omega
    · simp only [placed]
      omega
  · by_cases hname : info.HasName
    · simp only [placed, if_pos hname]
      left
      simp only [storeEntry, if_pos hname]
      exact stored_store
    · simp only [placed, if_neg hname]
      right
      simp only [storeEntry, if_neg hname]
      exact ⟨rfl, hclear.congr (agree_storeNode (.inr (.inr ⟨rfl, rfl⟩)))⟩
  · intro hname
    refine ⟨node + sizeofAddrInfo + sizeofStorage, by simp only [placed, if_pos hname], ?_⟩
    simp only [storeEntry, if_pos hname]
    exact (text_storeName _).congr (agree_store (.inr (by omega)))
  · intro hname
    simp only [placed, if_neg hname]

variable {s : Loop}

theorem round_eq (s : Loop) (info : PsxAddrInfo) :
    round w s info =
      { memory := (s.prev.elim (storeEntry w s.memory info s.cursor) fun prev =>
          (storeEntry w s.memory info s.cursor).store (prev + aiNext) 8
            (.pointer (some s.cursor)))
        head := s.prev.elim (some s.cursor) fun _ => s.head
        prev := some s.cursor
        cursor := next w s.cursor info } := by
  unfold round
  cases s.prev with
  | none => rfl
  | some prev => rfl

/-- The node before the cursor, if there is one, ends before the cursor. -/
def Loop.Ordered (s : Loop) : Prop := ∀ prev ∈ s.prev, prev + sizeofAddrInfo ≤ s.cursor

theorem Loop.Ordered.round (info : PsxAddrInfo) : (round w s info).Ordered := by
  rw [round_eq]
  intro prev hprev
  cases hprev
  unfold next
  dsimp only
  omega

/-- A round changes nothing before the cursor but the link of the node before. -/
theorem agree_round_before (h : o + n ≤ s.cursor)
    (hprev : ∀ prev ∈ s.prev, o + n ≤ prev + aiNext ∨ prev + sizeofAddrInfo ≤ o) :
    Agree s.memory (AddrInfo.round w s info).memory o n := by
  have hsize : aiNext + 8 = sizeofAddrInfo := rfl
  rw [round_eq]
  dsimp only
  cases hp : s.prev with
  | none => exact agree_storeEntry (.inl h)
  | some prev =>
    have := hprev prev hp
    exact (agree_storeEntry (.inl h)).trans (agree_store (by omega))

theorem agree_round_after (hs : s.Ordered) (h : next w s.cursor info ≤ o) :
    Agree s.memory (AddrInfo.round w s info).memory o n := by
  have hsize : aiNext + 8 = sizeofAddrInfo := rfl
  rw [round_eq]
  dsimp only
  cases hp : s.prev with
  | none => exact agree_storeEntry (.inr h)
  | some prev =>
    have := hs prev hp
    unfold next at h
    exact (agree_storeEntry (.inr h)).trans (agree_store (by omega))

/-- **A round puts an entry at the cursor** and links it to the one before. -/
theorem round_spec (w : ℕ) (info : PsxAddrInfo) (hs : s.Ordered)
    (hclear : Cleared s.memory (s.cursor + aiCanonname) 8) :
    Reads w (AddrInfo.round w s info).memory info (placed w s.cursor info) ∧
      Stored (AddrInfo.round w s info).memory (s.cursor + aiNext) 8 (.pointer none) ∧
      ∀ prev ∈ s.prev,
        Stored (AddrInfo.round w s info).memory (prev + aiNext) 8 (.pointer (some s.cursor)) := by
  have hsize : aiNext + 8 = sizeofAddrInfo := rfl
  obtain ⟨hreads, hnext⟩ := reads_storeEntry w info hclear
  rw [round_eq]
  dsimp only
  cases hp : s.prev with
  | none =>
    refine ⟨hreads, hnext, ?_⟩
    intro prev hprev
    cases hprev
  | some prev =>
    have := hs prev hp
    refine ⟨hreads.congr (agree_store ?_) (agree_store ?_), hnext.congr (agree_store ?_), ?_⟩
    · omega
    · omega
    · omega
    · rintro prev' hprev
      cases hprev
      exact stored_store

/-- Where the entries are. -/
def places (w : ℕ) : ℕ → List PsxAddrInfo → List Placed
  | _, [] => []
  | node, info :: list => placed w node info :: places w (next w node info) list

/-- What the first of them is linked by. -/
def first (ps : List Placed) : Option ℕ := ps.head?.map Placed.node

theorem next_le_total (w node : ℕ) (info : PsxAddrInfo) :
    node ≤ next w node info ∧ next w node info ≤ node + total w [info] := by
  unfold next nameSize total total
  split_ifs <;> omega

/-- **The parts of the entries are behind each other** in the block. -/
theorem places_ranges (w node : ℕ) (list : List PsxAddrInfo) :
    (∀ range ∈ (places w node list).flatMap Placed.ranges,
      node ≤ range.1 ∧ range.1 + range.2 ≤ node + total w list) ∧
    ((places w node list).flatMap Placed.ranges).Pairwise Apart := by
  induction list generalizing node with
  | nil => exact ⟨fun _ h => absurd h List.not_mem_nil, .nil⟩
  | cons info list ih =>
    obtain ⟨ihin, ihapart⟩ := ih (next w node info)
    have hnext := next_le_total w node info
    have hone : ∀ range ∈ (placed w node info).ranges,
        node ≤ range.1 ∧ range.1 + range.2 ≤ next w node info := by
      intro range hr
      unfold Placed.ranges placed at hr
      unfold next nameSize
      split_ifs at hr ⊢ with hname
      · simp only [Option.toList_some, List.mem_cons, List.not_mem_nil, or_false] at hr
        rcases hr with rfl | rfl | rfl <;> dsimp only <;> omega
      · simp only [Option.toList_none, List.mem_cons, List.not_mem_nil, or_false] at hr
        rcases hr with rfl | rfl <;> dsimp only <;> omega
    have htotal : total w (info :: list) = total w [info] + total w list := by
      simp only [total]
      omega
    rw [places, List.flatMap_cons]
    constructor
    · intro range hr
      rcases List.mem_append.1 hr with h | h
      · have := hone range h
        omega
      · have := ihin range h
        omega
    · refine List.pairwise_append.2 ⟨?_, ihapart, fun a ha b hb => ?_⟩
      · unfold Placed.ranges placed Apart
        split_ifs
        · simp
        · simp
      · have h1 := hone a ha
        have h2 := ihin b hb
        unfold Apart
        omega

/-- **What the loop leaves**: it changes nothing before the cursor but the link of the node before,
which then leads to the first of the entries; the entries are read and linked in their order. -/
structure Ran (w : ℕ) (s f : Loop) (list : List PsxAddrInfo) : Prop where
  agree : ∀ o n, o + n ≤ s.cursor →
    (∀ prev ∈ s.prev, o + n ≤ prev + aiNext ∨ prev + sizeofAddrInfo ≤ o) →
    Agree s.memory f.memory o n
  link : ∀ prev ∈ s.prev, Points s.memory (prev + aiNext) none →
    Points f.memory (prev + aiNext) (first (places w s.cursor list))
  reads : List.Forall₂ (Reads w f.memory) list (places w s.cursor list)
  follows : Follows f.memory (first (places w s.cursor list))
    ((places w s.cursor list).map Placed.node)
  head : f.head = s.prev.elim (first (places w s.cursor list) <|> s.head) fun _ => s.head

theorem ran_foldl {s : Loop} (list : List PsxAddrInfo) (hs : s.Ordered)
    (hclear : ∀ k, s.cursor ≤ k → s.memory k = .zero) :
    Ran w s (list.foldl (round w) s) list := by
  have hsize : aiNext + 8 = sizeofAddrInfo := rfl
  induction list generalizing s with
  | nil =>
    refine ⟨fun _ _ _ _ _ _ _ => rfl, fun _ _ h => h, .nil, .nil, ?_⟩
    cases hp : s.prev with
    | none => rfl
    | some prev => rfl
  | cons info list ih =>
    rw [List.foldl_cons]
    have hle := next_le_total w s.cursor info
    have hcursor : (round w s info).cursor = next w s.cursor info := by rw [round_eq]
    have hlast : (round w s info).prev = some s.cursor := by rw [round_eq]
    obtain ⟨hreads, hnext, hlink⟩ := round_spec w info hs
      fun i _ => hclear _ (by omega)
    obtain ⟨ihagree, ihlink, ihreads, ihfollows, ihhead⟩ := ih (s := round w s info)
      (Loop.Ordered.round info) (by
        intro k hk
        rw [hcursor] at hk
        rw [agree_round_after (n := 1) hs hk k le_rfl (by omega)]
        exact hclear k (by omega))
    rw [hcursor] at ihagree ihlink ihreads ihfollows ihhead
    rw [hlast] at ihagree ihlink ihhead
    simp only [Option.mem_some_iff, forall_eq'] at ihagree ihlink
    have hnext' := ihlink (.inl hnext)
    have hbound : next w s.cursor info =
        s.cursor + sizeofAddrInfo + sizeofStorage + nameSize w info := rfl
    refine ⟨?_, ?_, ?_, ?_, ?_⟩
    · intro o n ho hprev
      exact (agree_round_before ho hprev).trans (ihagree o n (by omega) (by omega))
    · intro prev hprev _
      have := hs prev hprev
      exact .inl ((hlink prev hprev).congr (ihagree _ _ (by omega) (by omega)))
    · refine .cons (hreads.congr (ihagree _ _ (by omega) (by omega))
        (ihagree _ _ (by omega) (by omega))) ihreads
    · exact .cons hnext' ihfollows
    · rw [ihhead, round_eq]
      rfl

theorem Follows.unique {m : Block Value} {p : Option ℕ} {nodes nodes' : List ℕ}
    (h : Follows m p nodes) (h' : Follows m p nodes') : nodes = nodes' := by
  induction h generalizing nodes' with
  | nil =>
    cases h'
    rfl
  | cons hp _ ih =>
    cases h' with
    | cons hp' h' =>
      obtain rfl := hp.unique hp'
      rw [ih h']

/-- Each name but the last fills up eight bytes, so that all nodes are aligned. -/
theorem aligned_places_iff (node : ℕ) (list : List PsxAddrInfo) (hnode : node % 8 = 0) :
    (∀ p ∈ places w node list, p.node % 8 = 0) ↔
      ∀ info ∈ list.dropLast, nameSize w info % 8 = 0 := by
  induction list generalizing node with
  | nil => simp [places]
  | cons info list ih =>
    cases list with
    | nil => simp [places, placed, hnode]
    | cons info' list =>
      have hnext : next w node info % 8 = nameSize w info % 8 := by
        unfold next sizeofAddrInfo sizeofStorage
        omega
      rw [places, List.dropLast_cons_of_ne_nil (List.cons_ne_nil _ _), List.forall_mem_cons,
        List.forall_mem_cons]
      by_cases hsize : nameSize w info % 8 = 0
      · rw [ih _ (hnext.trans hsize)]
        exact ⟨fun h => ⟨hsize, h.2⟩, fun h => ⟨hnode, h.2⟩⟩
      · constructor
        · intro h
          have := h.2 (placed w (next w node info) info') List.mem_cons_self
          exact absurd (hnext.symm.trans this) hsize
        · exact fun h => absurd h.1 hsize

theorem name_aligned {w node : ℕ} {list : List PsxAddrInfo} (hw : w ∣ 8) {p : Placed}
    (hp : p ∈ places w node list) (hnode : p.node % 8 = 0) :
    ∀ range ∈ p.name, range.1 % w = 0 := by
  induction list generalizing node with
  | nil => exact absurd hp List.not_mem_nil
  | cons info list ih =>
    rcases List.mem_cons.1 hp with rfl | hp
    · intro range hr
      unfold placed at hr hnode
      split_ifs at hr with hname
      · cases hr
        dsimp only at hnode ⊢
        have h8 : (node + sizeofAddrInfo + sizeofStorage) % 8 = 0 := by
          unfold sizeofAddrInfo sizeofStorage
          omega
        exact Nat.mod_eq_zero_of_dvd (hw.trans (Nat.dvd_of_mod_eq_zero h8))
      · cases hr
    · exact ih hp

/-- **The block is right but for the alignment of the nodes.** -/
theorem buildAddrInfo_iff {w : ℕ} (hw : w ∣ 8) (list : List PsxAddrInfo) :
    LaidOut w list (buildAddrInfo w true list) ↔
      ∀ info ∈ list.dropLast, nameSize w info % 8 = 0 := by
  have hran := ran_foldl (w := w) (s := ⟨fun _ => .zero, none, none, 0⟩) list
    (fun _ h => nomatch h) fun _ _ => rfl
  have hhead : (list.foldl (round w) ⟨fun _ => .zero, none, none, 0⟩).head =
      first (places w 0 list) := by
    rw [hran.head]
    dsimp only [Option.elim]
    cases first (places w 0 list) <;> rfl
  rw [← aligned_places_iff 0 list rfl]
  unfold LaidOut buildAddrInfo
  simp only [if_true, Option.mem_some_iff, forall_eq']
  constructor
  · rintro ⟨ps, h⟩
    have hfollows := h.follows
    dsimp only at hfollows
    rw [hhead] at hfollows
    have hnodes := hran.follows.unique hfollows
    intro p hp
    obtain ⟨q, hq, hqp⟩ := List.mem_map.1 (hnodes ▸ List.mem_map_of_mem hp)
    rw [← hqp]
    exact (h.aligned q hq).1
  · intro haligned
    obtain ⟨hinside, hapart⟩ := places_ranges w 0 list
    refine ⟨places w 0 list, ?_, hran.reads, ?_, hapart, fun p hp => ⟨haligned p hp, ?_⟩⟩
    · rw [hhead]
      exact hran.follows
    · intro range hr
      have := (hinside range hr).2
      dsimp only
      omega
    · exact name_aligned hw hp (haligned p hp)

/-- An entry with a name of two characters. -/
def short : PsxAddrInfo where
  family := 2
  sockType := 1
  protocol := 6
  flags := PsxAiCanonName
  addr := ⟨.inet, 80, ⟨List.replicate 16 0, rfl⟩, 0⟩
  canonName := [97, 98]
  canonName_ne_zero := by simp

/-- **The node behind a name of two characters is not aligned.** -/
theorem node_misaligned :
    ¬LaidOut 1 [short, short] (buildAddrInfoA true [short, short]) ∧
      ¬LaidOut 4 [short, short] (buildAddrInfoW .utf32 true [short, short]) := by
  constructor
  · intro h
    have := (buildAddrInfo_iff (w := 1) (by decide) [short, short]).1 h short List.mem_cons_self
    revert this
    decide
  · intro h
    have := (buildAddrInfo_iff (w := 4) (by decide) [short, short]).1 h short List.mem_cons_self
    revert this
    decide

theorem nameSize_iff {w : ℕ} {info : PsxAddrInfo} :
    nameSize w info % 8 = 0 ↔ (info.HasName → (info.canonName.length + 1) * w % 8 = 0) := by
  unfold nameSize
  split_ifs with hname
  · exact ⟨fun h _ => h, fun h => h hname⟩
  · exact ⟨fun _ h => absurd h hname, fun _ => rfl⟩

theorem laidOut_none {w : ℕ} {list : List PsxAddrInfo} : LaidOut w list none := by
  intro r hr
  cases hr

/-- **The lists are laid out right if and only if each name but the last, with its terminator, fills
up eight bytes.** -/
theorem laidOut_iff (wide : Uniconv.Wide) (memory : Bool) (list : List PsxAddrInfo) :
    (LaidOut 1 list (buildAddrInfoA memory list) ↔ (memory = true →
      ∀ info ∈ list.dropLast, info.HasName → (info.canonName.length + 1) % 8 = 0)) ∧
    (LaidOut wide.size list (buildAddrInfoW wide memory list) ↔ (memory = true →
      ∀ info ∈ list.dropLast, info.HasName → (info.canonName.length + 1) * wide.size % 8 = 0)) := by
  cases memory with
  | false =>
    exact ⟨iff_of_true laidOut_none fun h => absurd h Bool.false_ne_true,
      iff_of_true laidOut_none fun h => absurd h Bool.false_ne_true⟩
  | true =>
    have hA := buildAddrInfo_iff (w := 1) (by decide) list
    have hW := buildAddrInfo_iff (w := wide.size) (by cases wide <;> decide) list
    simp only [nameSize_iff, Nat.mul_one] at hA hW
    refine ⟨hA.trans ?_, hW.trans ?_⟩
    · exact ⟨fun h _ => h, fun h => h rfl⟩
    · exact ⟨fun h _ => h, fun h => h rfl⟩

end AddrInfo

end Swinx
