import Mathlib.Data.List.Basic
import Mathlib.Logic.Function.Basic
import Swinx.LTS.Basic

/-!
# Reference counting of `SharedMemory`

A segment begins with four bytes for a counter of the `SharedMemory` objects attached to it, and
the object that counts it down to zero is to unlink the segment (`Counted`).  The code reaches the
counter through the reference `nRef`.  The constructor binds `nRef` to the member `m_dwSize`, and a
reference cannot be bound again, so `init` and the destructor count in their own `m_dwSize`:

* the four bytes are never written (`Aliased.header`);
* `init` overwrites the count with the size, so `size()` is right (`Aliased.size`);
* the destructor counts the size down, and unlinks the segment of an object of size one
  (`Aliased.unlinked`).

`counted_iff` says that the counting is right only while nothing has been initialised.
-/

namespace Swinx

namespace Shm

/-- A shared memory object: the first four bytes, zero when `ftruncate` has extended it. -/
structure Segment where
  header : UInt32 := 0
  deriving DecidableEq, Repr

/-- What the reference `nRef` of an object is bound to. -/
inductive NRef where
  /-- The member `m_dwSize`. -/
  | dwSize
  /-- The first four bytes of the segment. -/
  | header
  deriving DecidableEq, Repr

variable {Name : Type*}

/-- `SharedMemory` -/
structure SharedMemory (Name : Type*) where
  /-- `m_dwSize` -/
  dwSize : UInt32
  /-- `shmid`: the segment that is open and mapped, if any. -/
  shmid : Option ℕ
  /-- `m_name` -/
  name : Option Name
  nRef : NRef
  /-- `m_bDetached` -/
  bDetached : Bool
  /-- Ghost: the size `init` was called with. -/
  inited : UInt32
  deriving DecidableEq, Repr

namespace SharedMemory

/-- The constructor: `nRef(m_dwSize)`. -/
def new : SharedMemory Name := ⟨0, none, none, .dwSize, false, 0⟩

/-- Read `nRef`, with `seg` the segment of the object. -/
def readRef (ob : SharedMemory Name) (seg : Segment) : UInt32 :=
  match ob.nRef with
  | .dwSize => ob.dwSize
  | .header => seg.header

/-- Write `nRef`. -/
def writeRef (ob : SharedMemory Name) (seg : Segment) (v : UInt32) :
    SharedMemory Name × Segment :=
  match ob.nRef with
  | .dwSize => ({ ob with dwSize := v }, seg)
  | .header => (ob, { seg with header := v })

/-- `init`, once the segment `i` is open and mapped. -/
def init (ob : SharedMemory Name) (i : ℕ) (seg : Segment) (created : Bool) (name : Name)
    (size : UInt32) : SharedMemory Name × Segment :=
  -- `nRef = *(uint32_t *)ptr`
  let (ob, seg) := ob.writeRef seg seg.header
  let (ob, seg) := ob.writeRef seg (if created then 1 else ob.readRef seg + 1)
  ({ ob with shmid := some i, dwSize := size, name := some name, bDetached := false,
             inited := size }, seg)

/-- The destructor of an object with a segment: is the segment to be unlinked, and what is in it
afterwards? -/
def destroy (ob : SharedMemory Name) (seg : Segment) : Bool × Segment :=
  let (ob, seg) := ob.writeRef seg (ob.readRef seg - 1)
  (ob.readRef seg = 0 && !ob.bDetached, seg)

end SharedMemory

/-! ### The system -/

/-- What a destruction did. -/
structure Destruction where
  /-- The size of the object. -/
  size : UInt32
  /-- How many objects are attached to the segment afterwards. -/
  remaining : ℕ
  detached : Bool
  unlinked : Bool
  deriving DecidableEq, Repr

/-- The kernel and the objects of all processes. -/
structure State (Name : Type*) where
  segs : ℕ → Segment
  /-- The segments created so far. -/
  created : ℕ
  /-- The names that `shm_open` finds. -/
  link : Name → Option ℕ
  /-- The initialised objects that are alive. -/
  objs : List (SharedMemory Name)
  /-- Ghost: the destructions so far. -/
  destroyed : List Destruction

/-- Nothing exists yet. -/
def State.init : State Name := ⟨fun _ => {}, 0, fun _ => none, [], []⟩

/-- How many live objects are attached to a segment. -/
def State.attached (s : State Name) (i : ℕ) : ℕ := s.objs.countP fun ob => ob.shmid = some i

/-- The calls, of any process. -/
inductive Call (Name : Type*) where
  /-- Construct an object and `init` it. -/
  | init (name : Name) (size : UInt32)
  /-- `detach` the `k`-th live object. -/
  | detach (k : ℕ)
  /-- Destroy the `k`-th live object. -/
  | destroy (k : ℕ)
  deriving DecidableEq, Repr

variable [DecidableEq Name]

/-- One call. -/
def next (s : State Name) : Call Name → Option (State Name)
  | .init name size =>
    -- `shm_open` of an existing segment, or else with `O_CREAT | O_EXCL`
    let i := (s.link name).getD s.created
    let created := (s.link name).isNone
    let seg := if created then {} else s.segs i
    let (ob, seg) := SharedMemory.new.init i seg created name size
    some { s with
      segs := Function.update s.segs i seg
      created := if created then s.created + 1 else s.created
      link := Function.update s.link name (some i)
      objs := s.objs ++ [ob] }
  | .detach k =>
    match s.objs[k]? with
    | some ob => some { s with objs := s.objs.set k { ob with bDetached := true } }
    | none => none
  | .destroy k =>
    match s.objs[k]? with
    | some ob =>
      match ob.shmid, ob.name with
      | some i, some name =>
        let (unlinked, seg) := ob.destroy (s.segs i)
        let objs := s.objs.eraseIdx k
        some { s with
          segs := Function.update s.segs i seg
          link := if unlinked then Function.update s.link name none else s.link
          objs := objs
          destroyed := s.destroyed ++
            [⟨ob.dwSize, objs.countP fun ob => ob.shmid = some i, ob.bDetached, unlinked⟩] }
      | _, _ => none
    | none => none

/-- The calls on shared memory as a transition system. -/
def lts : LTS (State Name) (Call Name) := ⟨next⟩

/-! ### What the code does -/

omit [DecidableEq Name] in
/-- An object whose reference is bound to `m_dwSize` counts its size down. -/
theorem destroy_of_dwSize {ob : SharedMemory Name} (h : ob.nRef = .dwSize) (seg : Segment) :
    ob.destroy seg = (ob.dwSize = 1 && !ob.bDetached, seg) := by
  have hone : ob.dwSize - 1 = 0 ↔ ob.dwSize = 1 := by grind
  simp only [SharedMemory.destroy, SharedMemory.writeRef, SharedMemory.readRef, h, hone]

/-- **The references stay bound to the members.**  What that does to the counter, to the sizes and
to the destructions. -/
structure Aliased (s : State Name) : Prop where
  nRef : ∀ ob ∈ s.objs, ob.nRef = .dwSize
  header : ∀ i, (s.segs i).header = 0
  size : ∀ ob ∈ s.objs, ob.dwSize = ob.inited
  unlinked : ∀ d ∈ s.destroyed, d.unlinked = (d.size = 1 && !d.detached)

theorem Aliased.next {s s' : State Name} {l : Call Name} (h : Aliased s)
    (hs : next s l = some s') : Aliased s' := by
  cases l with
  | init name size =>
    cases hs
    refine ⟨fun ob hob => ?_, fun i => ?_, fun ob hob => ?_, h.unlinked⟩
    · rcases List.mem_append.1 hob with hob | hob
      · exact h.nRef ob hob
      · rw [List.mem_singleton.1 hob]
        rfl
    · simp only [Function.update_apply]
      split_ifs
      · rfl
      · exact h.header _
      · exact h.header i
    · rcases List.mem_append.1 hob with hob | hob
      · exact h.size ob hob
      · rw [List.mem_singleton.1 hob]
  | detach k =>
    simp only [Shm.next] at hs
    split at hs
    case h_2 => cases hs
    case h_1 ob hk =>
      cases hs
      have hmem : ob ∈ s.objs := List.mem_of_getElem? hk
      refine ⟨fun ob' hob => ?_, h.header, fun ob' hob => ?_, h.unlinked⟩
      · rcases List.mem_or_eq_of_mem_set hob with hob | rfl
        · exact h.nRef ob' hob
        · exact h.nRef ob hmem
      · rcases List.mem_or_eq_of_mem_set hob with hob | rfl
        · exact h.size ob' hob
        · exact h.size ob hmem
  | destroy k =>
    simp only [Shm.next] at hs
    split at hs
    case h_2 => cases hs
    case h_1 ob hk =>
      split at hs
      case h_2 => cases hs
      case h_1 i name hi hname =>
        rw [destroy_of_dwSize (h.nRef ob (List.mem_of_getElem? hk))] at hs
        cases hs
        refine ⟨fun ob' hob => ?_, fun j => ?_, fun ob' hob => ?_, fun d hd => ?_⟩
        · exact h.nRef ob' (List.mem_of_mem_eraseIdx hob)
        · rw [Function.update_eq_self]
          exact h.header j
        · exact h.size ob' (List.mem_of_mem_eraseIdx hob)
        · rcases List.mem_append.1 hd with hd | hd
          · exact h.unlinked d hd
          · rw [List.mem_singleton.1 hd]

omit [DecidableEq Name] in
theorem aliased_init : Aliased (State.init : State Name) := by
  constructor <;> simp [State.init]

/-! ### What reference counting should do -/

/-- **Reference counting**: the counter of a segment is the number of live objects attached to it,
the objects keep their sizes, and a segment is unlinked by the destruction of the last object
attached to it, unless that object is detached. -/
structure Counted (s : State Name) : Prop where
  header : ∀ i, (s.segs i).header.toNat = s.attached i
  size : ∀ ob ∈ s.objs, ob.dwSize = ob.inited
  unlinked : ∀ d ∈ s.destroyed, d.unlinked = (d.remaining = 0 && !d.detached)

theorem size_eq_inited {s : State Name} (h : lts.Reachable .init s) :
    ∀ ob ∈ s.objs, ob.dwSize = ob.inited :=
  (h.invariant aliased_init fun _ _ _ hI hs => hI.next hs).size

/-- In every run the counter of a segment is right exactly while nobody is attached. -/
theorem header_eq_attached_iff {s : State Name} (h : lts.Reachable .init s) (i : ℕ) :
    (s.segs i).header.toNat = s.attached i ↔ s.attached i = 0 := by
  have hI := h.invariant aliased_init fun _ _ _ hI hs => hI.next hs
  rw [hI.header]
  exact eq_comm

/-- In every run a destruction of an object that is not detached unlinks what it should exactly if
its size is one and it is the last, or neither. -/
theorem unlinked_iff {s : State Name} (h : lts.Reachable .init s) {d : Destruction}
    (hd : d ∈ s.destroyed) (hdet : d.detached = false) :
    d.unlinked = (d.remaining = 0 && !d.detached) ↔ (d.size = 1 ↔ d.remaining = 0) := by
  have hI := h.invariant aliased_init fun _ _ _ hI hs => hI.next hs
  rw [hI.unlinked d hd, hdet]
  simp

/-- A call other than `init`. -/
def NoInit (_ : State Name) : Call Name → Prop
  | .init _ _ => False
  | _ => True

instance : ∀ (s : State Name) (l : Call Name), Decidable (NoInit s l)
  | _, .init _ _ => .isFalse id
  | _, .detach _ | _, .destroy _ => .isTrue trivial

/-- The state after an `init` has an attached object that the counter does not know. -/
theorem not_counted_of_init {s s' : State Name} {name : Name} {size : UInt32} (h : Aliased s)
    (hs : next s (.init name size) = some s') : ¬ Counted s' := by
  intro hc
  have h' := h.next hs
  cases hs
  have hz := hc.header ((s.link name).getD s.created)
  rw [h'.header] at hz
  simp [State.attached] at hz

/-- **The counting is right exactly in the runs without a successful `init`.** -/
theorem counted_iff (ls : List (Call Name)) :
    lts.AllStates Counted (State.init : State Name) ls ↔ lts.AllSteps NoInit .init ls := by
  refine LTS.allStates_iff_allSteps (I := fun s => Aliased s ∧ s.objs = [] ∧ s.destroyed = [])
    (fun s hI => ?_) (fun s l s' hI hl hs => ?_) (fun s l s' hI hs hc => ?_)
    ⟨aliased_init, rfl, rfl⟩
  · obtain ⟨hI, hobjs, hd⟩ := hI
    exact ⟨fun i => by simp [hI.header, State.attached, hobjs], hI.size, by simp [hd]⟩
  · obtain ⟨hI, hobjs, hd⟩ := hI
    -- Without objects no other call is possible.
    cases l with
    | init name size => exact absurd hl id
    | detach k | destroy k => simp [lts, next, hobjs] at hs
  · cases l with
    | init name size => exact absurd hc (not_counted_of_init hI.1 hs)
    | detach k | destroy k => trivial

/-- **An attached object that is not counted, and a segment that stays behind.**  The only object
of a segment of 16 bytes comes and goes. -/
theorem segment_left : ∃ s s', lts.run (State.init : State String) [.init "/share" 16] = some s ∧
    (s.segs 0).header = 0 ∧ s.attached 0 = 1 ∧ ¬ Counted s ∧
    lts.run s [.destroy 0] = some s' ∧ s'.objs = [] ∧ s'.link "/share" = some 0 ∧
    ¬ Counted s' := by
  refine ⟨_, _, rfl, by decide, by decide, fun h => absurd (h.header 0) (by decide), rfl, by decide,
    by decide, fun h => absurd (h.unlinked ⟨16, 0, false, false⟩ (by decide)) (by decide)⟩

end Shm

end Swinx
