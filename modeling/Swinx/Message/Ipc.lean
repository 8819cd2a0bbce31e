import Swinx.Data.Bytes
import Swinx.SharedMemory

/-!
# A message to a window of another process

The sender writes the message into a shared segment, creates an event, and sends a client message
with the name of both; the receiver opens the event and the segment, calls the handler, writes the
result and sets the event.  `_SendMessageTimeout` waits for the event and reads the result;
`PostMessageA` leaves at once.

The steps below are those of one message, in any order that the two sides allow.  The segment and
its `SharedMemory` objects are those of `Shm`.  `gen_suid` makes the names of the process id and a
counter, and segments are never unlinked: the names may have been used before, so an exchange
begins with whatever an earlier one has left under them (`Leftover`).

* `received_iff` — what the receiver reads from the layout is what the sender was given.
* `sound_iff` — an exchange is sound in all its states exactly if its steps are orderly.
-/

namespace Swinx

namespace Ipc

open Function (update update_eq_self update_self)

open Shm (SharedMemory Segment)

/-- `WM_COPYDATA` -/
def WM_COPYDATA : UInt32 := 0x004A

/-- The size of a page of memory. -/
def pageSize : ℕ := 4096

/-- How many bytes a mapping of `n` bytes makes accessible: whole pages. -/
def mapped (n : ℕ) : ℕ := (n + pageSize - 1) / pageSize * pageSize

/-- The arguments of `PostIpcMessage`. -/
structure Outgoing where
  msg : UInt32
  wp : UInt64
  /-- `lp`, for `WM_COPYDATA` the `dwData` of the structure that it points to. -/
  lp : UInt64
  /-- The bytes of the structure. -/
  lpData : List UInt8
  /-- `cbData` is a `DWORD`. -/
  cbData_lt : lpData.length < 2 ^ 32

/-- What a handler is called with. -/
structure Received where
  message : UInt32
  wParam : ℕ
  /-- `lParam`, for `WM_COPYDATA` the `dwData` of the structure that it points to. -/
  lParam : ℕ
  cbData : ℕ
  /-- The bytes of the structure, `none` if they cannot be read. -/
  lpData : Option (List UInt8)
  deriving DecidableEq, Repr

namespace Outgoing

variable (m : Outgoing)

/-- What follows `MsgLayout`. -/
def extra : List UInt8 :=
  if m.msg = WM_COPYDATA then Bytes.ofNat 4 m.lpData.length ++ m.lpData else []

/-- `MsgLayout` without `ret`, and what follows it. -/
def body : List UInt8 := Bytes.ofNat 8 m.wp.toNat ++ Bytes.ofNat 8 m.lp.toNat ++ m.extra

/-- The buffer of the segment: `ret`, `wp`, `lp`, `cbData` and the payload. -/
def layout : List UInt8 := Bytes.ofNat 8 0 ++ m.body

/-- What the handler should be called with. -/
def received : Received :=
  if m.msg = WM_COPYDATA then
    ⟨m.msg, m.wp.toNat, m.lp.toNat, m.lpData.length, some m.lpData⟩
  else ⟨m.msg, m.wp.toNat, m.lp.toNat, 0, some []⟩

end Outgoing

/-- The members of `IpcMsg` that the handler is called with. -/
structure IpcMsg where
  message : UInt32
  wParam : ℕ
  lParam : ℕ
  cbData : ℕ
  deriving DecidableEq, Repr

namespace IpcMsg

/-- The constructor of `IpcMsg` reads the buffer. -/
def read (message : UInt32) (buf : List UInt8) : IpcMsg where
  message := message
  wParam := Bytes.read buf 8 8
  lParam := Bytes.read buf 16 8
  cbData := if message = WM_COPYDATA then Bytes.read buf 24 4 else 0

/-- What the handler finds, with `len` bytes within reach, of which the buffer is all but the first
four. -/
def received (im : IpcMsg) (buf : List UInt8) (len : ℕ) : Received :=
  ⟨im.message, im.wParam, im.lParam, im.cbData,
    if 4 + 28 + im.cbData ≤ len then some ((buf.drop 28).take im.cbData) else none⟩

end IpcMsg

/-- Where the sender is. -/
inductive SPhase
  | start
  /-- The message is in the segment. -/
  | written
  /-- `CreateEventA` has been called. -/
  | ready
  /-- The client message is sent: in `PostMessageA` before `detach`, else in the wait. -/
  | sent
  /-- The wait has returned `WAIT_OBJECT_0`. -/
  | signalled
  /-- `_SendMessageTimeout` before `delete shareMem`. -/
  | deleting
  /-- `_SendMessageTimeout` before `CloseHandle`. -/
  | closing
  /-- `PostMessageA` before `CloseHandle`. -/
  | postClosing
  /-- `PostMessageA` before `delete shareMem`. -/
  | postDeleting
  | done
  /-- The process has died of a write outside the mapping. -/
  | faulted
  deriving DecidableEq, Repr

/-- Where the receiver is. -/
inductive RPhase
  | none
  /-- The client message is on its way. -/
  | pending
  /-- In the constructor of `IpcMsg`, after `CreateEventA`. -/
  | evented
  /-- In the constructor of `IpcMsg`, after `init`. -/
  | opened
  /-- The message is queued. -/
  | queued
  | handling
  /-- The handler has returned. -/
  | handled
  /-- `SetResult` has been called. -/
  | replied
  /-- In the destructor, before `CloseHandle`. -/
  | closing
  /-- In the destructor, before `delete shareMem`. -/
  | deleting
  | done
  /-- The process has died of a read outside the mapping. -/
  | faulted
  deriving DecidableEq, Repr

/-- How `PostIpcMessage` fares with the segment. -/
inductive Create
  /-- Nothing could be created, or what there is could not be opened and mapped. -/
  | fails
  /-- The segment was created, and `ftruncate` or, after it, `mmap` has failed. -/
  | failsCreated (bTruncated : Bool)
  | ok
  deriving DecidableEq, Repr

/-- A segment, as a file. -/
structure File where
  /-- The first four bytes. -/
  seg : Segment
  /-- How long the file is, the first four bytes included. -/
  length : ℕ
  /-- The bytes after the first four, as far as they have been written; the others are zero. -/
  bytes : List UInt8

/-- What is found under the names when `gen_suid` gives them out. -/
structure Leftover where
  /-- The segment of an earlier process with the same process id. -/
  file : Option File := none
  /-- The handles of the event that were never closed. -/
  evtRefs : ℕ := 0
  /-- How often the event is signalled. -/
  evtSignals : ℕ := 0

/-- The segments of that name, the event, and the two sides. -/
structure State where
  /-- The segment that `shm_open` finds. -/
  link : Option ℕ
  /-- The segments created so far. -/
  created : ℕ
  /-- The segments. -/
  files : ℕ → File
  /-- The open handles of the event; the event exists while there are any. -/
  evtRefs : ℕ
  /-- How often the event is signalled. -/
  evtSignals : ℕ
  /-- Where the sender is. -/
  sender : SPhase
  /-- The `shareMem` of the sender. -/
  sMem : SharedMemory Unit
  /-- `hEvt` is a handle. -/
  sEvt : Bool
  /-- Where the receiver is. -/
  receiver : RPhase
  /-- The `shareMem` of the receiver. -/
  rMem : SharedMemory Unit
  /-- `synEvt` is a handle. -/
  rEvt : Bool
  /-- What the constructor of `IpcMsg` has read. -/
  ipcMsg : IpcMsg
  /-- `hasResult` of the receiver. -/
  hasResult : Bool
  /-- What the handler was called with. -/
  invoked : Option Received
  /-- What the handler has returned. -/
  handlerRes : Option UInt64
  /-- The result with which the sender returns success. -/
  returned : Option ℕ
  /-- The receiver has read a segment that it failed to open. -/
  readFailed : Bool

/-- A step of one side. -/
inductive Act
  | create (o : Create)
  | createEvent (bOk : Bool)
  | sendClientMessage
  /-- The wait of the sender sees the event. -/
  | waitSignalled
  /-- The wait of the sender ends without it. -/
  | waitFails
  | readRet
  | detach
  | deleteMem
  | closeEvent
  | rOpenEvent (bOk : Bool)
  | rInit (bOk : Bool)
  | rRead
  | rDispatch
  | rReturn (res : UInt64)
  | rSetResult
  /-- `~IpcMsg` begins. -/
  | rDestruct
  | rCloseEvent
  | rDeleteMem
  deriving DecidableEq, Repr

/-- `gen_suid` has given the names out. -/
def init (old : Leftover) : State where
  link := old.file.map fun _ => 0
  created := if old.file.isSome then 1 else 0
  files := fun _ => old.file.getD ⟨{}, 0, []⟩
  evtRefs := old.evtRefs
  evtSignals := old.evtSignals
  sender := .start
  sMem := .new
  sEvt := false
  receiver := .none
  rMem := .new
  rEvt := false
  ipcMsg := ⟨0, 0, 0, 0⟩
  hasResult := false
  invoked := none
  handlerRes := none
  returned := none
  readFailed := false

namespace State

/-- `SharedMemory::init` of a new object.  A segment that exists is opened with the length that it
has; a new one gets its length from `ftruncate`. -/
def initMem (s : State) (size : UInt32) : State × SharedMemory Unit :=
  let i := s.link.getD s.created
  let created := s.link.isNone
  let file := if created then ⟨{}, size.toNat + 4, []⟩ else s.files i
  let r := SharedMemory.new.init i file.seg created () size
  ({ s with
      link := some i
      created := if created then s.created + 1 else s.created
      files := update s.files i { file with seg := r.2 } }, r.1)

/-- The destructor of `SharedMemory`. -/
def deleteMem (s : State) (mem : SharedMemory Unit) : State :=
  match mem.shmid with
  | none => s
  | some i =>
    let r := mem.destroy (s.files i).seg
    { s with
      files := update s.files i { s.files i with seg := r.2 }
      link := if r.1 then none else s.link }

/-- How many bytes of its segment an object reaches: the pages of its mapping, as far as the file
has them. -/
def reach (s : State) (mem : SharedMemory Unit) : ℕ :=
  match mem.shmid with
  | none => 0
  | some i => min (mapped (mem.dwSize.toNat + 4)) (mapped (s.files i).length)

/-- The bytes of the segment of an object. -/
def buf (s : State) (mem : SharedMemory Unit) : List UInt8 :=
  (mem.shmid.map fun i => (s.files i).bytes).getD []

/-- Write the first bytes of the buffer of an object. -/
def writeBuf (s : State) (mem : SharedMemory Unit) (bytes : List UInt8) : State :=
  match mem.shmid with
  | none => s
  | some i =>
    let file := s.files i
    { s with
      files := update s.files i
        { file with bytes := bytes ++ file.bytes.drop bytes.length } }

/-- `CreateEventA`: the event is opened if it exists. -/
def openEvent (s : State) (bOk : Bool) : State :=
  if bOk then
    { s with evtRefs := s.evtRefs + 1, evtSignals := if s.evtRefs = 0 then 0 else s.evtSignals }
  else s

/-- `CloseHandle` -/
def closeEvent (s : State) (bHandle : Bool) : State :=
  if bHandle then { s with evtRefs := s.evtRefs - 1 } else s

/-- `SetEvent` -/
def setEvent (s : State) (bHandle : Bool) : State :=
  if bHandle then { s with evtSignals := s.evtSignals + 1 } else s

/-- `PostIpcMessage` writes the message; `bufLen` is cut to 32 bits on its way to `init`. -/
def write (s : State) (m : Outgoing) : State :=
  let r := s.initMem (UInt32.ofNat m.layout.length)
  if 4 + m.layout.length ≤ r.1.reach r.2 then
    { r.1.writeBuf r.2 m.layout with sMem := r.2, sender := .written }
  else { r.1 with sMem := r.2, sender := .faulted }

end State

/-- One step of the exchange of the message `m`, posted or sent. -/
def next (m : Outgoing) (post : Bool) (s : State) : Act → Option State
  | .create o =>
    if s.sender = .start then
      match o with
      | .fails => some { s with sender := .done }
      | .failsCreated bTruncated =>
        if s.link = none then
          let length := if bTruncated then m.layout.length % 2 ^ 32 + 4 else 0
          some { s with
            link := some s.created
            created := s.created + 1
            files := update s.files s.created ⟨{}, length, []⟩
            sender := .done }
        else none
      | .ok => some (s.write m)
    else none
  | .createEvent bOk =>
    if s.sender = .written then some { s.openEvent bOk with sEvt := bOk, sender := .ready }
    else none
  | .sendClientMessage =>
    if s.sender = .ready then some { s with receiver := .pending, sender := .sent } else none
  | .waitSignalled =>
    if s.sender = .sent ∧ post = false ∧ s.sEvt = true ∧ 0 < s.evtSignals then
      some { s with evtSignals := s.evtSignals - 1, sender := .signalled }
    else none
  | .waitFails =>
    if s.sender = .sent ∧ post = false then some { s with sender := .deleting } else none
  | .readRet =>
    if s.sender = .signalled then
      some { s with returned := some (Bytes.read (s.buf s.sMem) 0 8), sender := .deleting }
    else none
  | .detach =>
    if s.sender = .sent ∧ post = true then
      some { s with sMem := { s.sMem with bDetached := true }, sender := .postClosing }
    else none
  | .deleteMem =>
    match s.sender with
    | .deleting => some { s.deleteMem s.sMem with sender := .closing }
    | .postDeleting => some { s.deleteMem s.sMem with sender := .done }
    | _ => none
  | .closeEvent =>
    match s.sender with
    | .closing => some { s.closeEvent s.sEvt with sender := .done }
    | .postClosing => some { s.closeEvent s.sEvt with sender := .postDeleting }
    | _ => none
  | .rOpenEvent bOk =>
    if s.receiver = .pending then some { s.openEvent bOk with rEvt := bOk, receiver := .evented }
    else none
  | .rInit bOk =>
    if s.receiver = .evented then
      if bOk then
        let r := s.initMem 0
        -- the first four bytes are read, whatever there is of the file
        if 4 ≤ r.1.reach r.2 then some { r.1 with rMem := r.2, receiver := .opened }
        else some { r.1 with rMem := r.2, receiver := .faulted }
      else some { s with receiver := .opened }
    else none
  | .rRead =>
    if s.receiver = .opened then
      -- the result of `init` has not been looked at
      if s.rMem.shmid.isSome then
        some { s with ipcMsg := .read m.msg (s.buf s.rMem), receiver := .queued }
      else some { s with readFailed := true, receiver := .faulted }
    else none
  | .rDispatch =>
    if s.receiver = .queued then
      some { s with
        invoked := some (s.ipcMsg.received (s.buf s.rMem) (s.reach s.rMem))
        receiver := .handling }
    else none
  | .rReturn res =>
    if s.receiver = .handling then some { s with handlerRes := some res, receiver := .handled }
    else none
  | .rSetResult =>
    match s.receiver, s.handlerRes with
    | .handled, some res =>
      let written := s.writeBuf s.rMem (Bytes.ofNat 8 res.toNat)
      some { written.setEvent s.rEvt with hasResult := true, receiver := .replied }
    | _, _ => none
  | .rDestruct =>
    if s.receiver = .queued ∨ s.receiver = .handled ∨ s.receiver = .replied then
      some { s.setEvent (s.rEvt && !s.hasResult) with receiver := .closing }
    else none
  | .rCloseEvent =>
    if s.receiver = .closing then some { s.closeEvent s.rEvt with receiver := .deleting } else none
  | .rDeleteMem =>
    if s.receiver = .deleting then some { s.deleteMem s.rMem with receiver := .done } else none

/-- The exchange as a transition system. -/
def lts (m : Outgoing) (post : Bool) : LTS State Act := ⟨next m post⟩

/-- Neither side has anything left to do. -/
def State.Finished (s : State) : Prop :=
  s.sender = .done ∧ (s.receiver = .none ∨ s.receiver = .done)

/-- **The exchange is sound.** -/
structure Sound (m : Outgoing) (s : State) : Prop where
  /-- A handler that is called gets the message. -/
  intact : ∀ r ∈ s.invoked, r = m.received
  /-- The receiver does not read a segment that it failed to open. -/
  opened : s.readFailed = false
  /-- The sender returns the result of the handler. -/
  result : ∀ v ∈ s.returned, s.handlerRes.map UInt64.toNat = some v
  /-- Nothing is left. -/
  cleaned : s.Finished → s.link = none ∧ s.evtRefs = 0

/-- **The good steps.** -/
def Orderly (m : Outgoing) (s : State) : Act → Prop
  | .create .ok => True
  | .create .fails => s.link = none ∧ s.evtRefs = 0
  | .create (.failsCreated _) => False
  | .rRead => s.rMem.shmid.isSome = true
  | .rDispatch => m.msg = WM_COPYDATA → 4 + 28 + m.lpData.length ≤ pageSize
  | .readRet => s.hasResult = true ∨ s.handlerRes = some 0
  | .closeEvent => s.sender = .closing → s.receiver ≠ .done
  | .deleteMem => s.sender = .postDeleting → s.receiver ≠ .done
  | .rDeleteMem => s.sender ≠ .done
  | _ => True

/-! ### The layout -/

theorem mapped_four : mapped 4 = pageSize := rfl

/-- Where there is anything, there is a page. -/
theorem pageSize_le_mapped {n k : ℕ} (hk : 0 < k) (h : k ≤ mapped n) : pageSize ≤ mapped n := by
  unfold mapped at h ⊢
  refine Nat.le_mul_of_pos_left _ (Nat.pos_of_ne_zero fun hzero => ?_)
  rw [hzero, Nat.zero_mul] at h
  omega

namespace Outgoing

variable (m : Outgoing)

/-- `cbData`, as the receiver reads it. -/
def cbData : ℕ := if m.msg = WM_COPYDATA then m.lpData.length else 0

/-- The bytes of the buffer once the message is in it: a result, the message, and what an earlier
use of the segment has left behind it. -/
def held (ret : ℕ) (rest : List UInt8) : List UInt8 := Bytes.ofNat 8 ret ++ (m.body ++ rest)

theorem length_layout : m.layout.length = 24 + m.extra.length := by
  simp only [layout, body, List.length_append, Bytes.length_ofNat]
  omega

theorem read_wp (ret : ℕ) (rest : List UInt8) : Bytes.read (m.held ret rest) 8 8 = m.wp.toNat := by
  simp only [held, body, List.append_assoc]
  rw [Bytes.read_append _ _ _ (Bytes.length_ofNat ..) (Bytes.length_ofNat ..)]
  exact Bytes.toNat_ofNat_of_lt m.wp.toNat_lt

theorem read_lp (ret : ℕ) (rest : List UInt8) :
    Bytes.read (m.held ret rest) 16 8 = m.lp.toNat := by
  have hpre : (Bytes.ofNat 8 ret ++ Bytes.ofNat 8 m.wp.toNat).length = 16 := by
    simp only [List.length_append, Bytes.length_ofNat]
  simp only [held, body, List.append_assoc]
  rw [← List.append_assoc, Bytes.read_append _ _ _ hpre (Bytes.length_ofNat ..)]
  exact Bytes.toNat_ofNat_of_lt m.lp.toNat_lt

theorem exists_fields (ret : ℕ) (rest : List UInt8) :
    ∃ fields, fields.length = 24 ∧ m.held ret rest = fields ++ (m.extra ++ rest) := by
  refine ⟨Bytes.ofNat 8 ret ++ (Bytes.ofNat 8 m.wp.toNat ++ Bytes.ofNat 8 m.lp.toNat), ?_, ?_⟩
  · simp only [List.length_append, Bytes.length_ofNat]
  · simp only [held, body, List.append_assoc]

/-- **What the constructor of `IpcMsg` reads**, whatever result is in the segment. -/
theorem read_eq (ret : ℕ) (rest : List UInt8) : IpcMsg.read m.msg (m.held ret rest) =
    ⟨m.msg, m.wp.toNat, m.lp.toNat, m.cbData⟩ := by
  unfold IpcMsg.read cbData
  rw [read_wp, read_lp]
  split_ifs with hcopy
  · obtain ⟨fields, hlen, heq⟩ := m.exists_fields ret rest
    have hlt : m.lpData.length < 256 ^ 4 := m.cbData_lt
    rw [heq, extra, if_pos hcopy, List.append_assoc,
      Bytes.read_append _ _ _ hlen (Bytes.length_ofNat ..), Bytes.toNat_ofNat_of_lt hlt]
  · rfl

/-- The first page holds the fields, and the payload exactly if it ends there. -/
theorem le_first_page_iff {len : ℕ} (hlen : 4 + m.layout.length ≤ mapped len) :
    4 + 28 + m.cbData ≤ min (mapped 4) (mapped len) ↔
      (m.msg = WM_COPYDATA → 4 + 28 + m.lpData.length ≤ pageSize) := by
  have hpage : pageSize ≤ mapped len := pageSize_le_mapped (by omega) hlen
  rw [m.length_layout, extra] at hlen
  rw [mapped_four, Nat.le_min, cbData]
  split_ifs at hlen ⊢ with hcopy
  · rw [List.length_append, Bytes.length_ofNat] at hlen
    exact ⟨fun h _ => h.1, fun h => ⟨h hcopy, by omega⟩⟩
  · have hfirst : 4 + 28 + 0 ≤ pageSize := by decide
    exact iff_of_true ⟨hfirst, hfirst.trans hpage⟩ fun h => absurd h hcopy

/-- **The handler gets the message exactly if the payload ends on the first page**: the receiver
maps four bytes. -/
theorem received_eq_iff (ret : ℕ) (rest : List UInt8) {len : ℕ}
    (hlen : 4 + m.layout.length ≤ mapped len) :
    IpcMsg.received ⟨m.msg, m.wp.toNat, m.lp.toNat, m.cbData⟩ (m.held ret rest)
        (min (mapped 4) (mapped len)) = m.received ↔
      (m.msg = WM_COPYDATA → 4 + 28 + m.lpData.length ≤ pageSize) := by
  rw [← m.le_first_page_iff hlen]
  unfold IpcMsg.received received
  by_cases hfits : 4 + 28 + m.cbData ≤ min (mapped 4) (mapped len)
  · rw [if_pos hfits]
    refine iff_of_true ?_ hfits
    by_cases hcopy : m.msg = WM_COPYDATA
    · obtain ⟨fields, hfields, heq⟩ := m.exists_fields ret rest
      have hpre : (fields ++ Bytes.ofNat 4 m.lpData.length).length = 28 := by
        simp only [List.length_append, Bytes.length_ofNat, hfields]
      rw [if_pos hcopy, heq, extra, if_pos hcopy, cbData, if_pos hcopy, List.append_assoc,
        ← List.append_assoc, List.drop_left' hpre, List.take_left]
    · rw [if_neg hcopy, cbData, if_neg hcopy, List.take_zero]
  · rw [if_neg hfits]
    refine iff_of_false (fun h => hfits ?_) hfits
    have hcopy : ¬ m.msg = WM_COPYDATA := fun hcopy => by
      rw [if_pos hcopy] at h
      cases (Received.mk.inj h).2.2.2.2
    exact (m.le_first_page_iff hlen).2 fun h => absurd h hcopy

end Outgoing

/-! ### The segment -/

/-- An object whose reference is bound to its size, and whose size is not 1, does not unlink its
segment. -/
structure Keeps (mem : SharedMemory Unit) : Prop where
  nRef : mem.nRef = .dwSize
  dwSize : mem.dwSize ≠ 1

theorem Keeps.deleteMem {s : State} {mem : SharedMemory Unit} (h : Keeps mem) :
    s.deleteMem mem = s := by
  unfold State.deleteMem
  cases mem.shmid with
  | none => rfl
  | some i =>
    have hone : (decide (mem.dwSize = 1) && !mem.bDetached) = false := by simp [h.dwSize]
    simp only [Shm.destroy_of_dwSize h.nRef, hone, Bool.false_eq_true, if_false,
      update_eq_self]

theorem init_eq (i : ℕ) (seg : Segment) (created : Bool) (size : UInt32) :
    SharedMemory.new.init i seg created () size =
      (⟨size, some i, some (), .dwSize, false, size⟩, seg) := rfl

theorem initMem_of_link {s : State} {i : ℕ} (h : s.link = some i) (size : UInt32) :
    s.initMem size = (s, ⟨size, some i, some (), .dwSize, false, size⟩) := by
  cases s
  obtain rfl : _ = some i := h
  simp only [State.initMem, init_eq, Option.getD_some, Option.isNone_some, Bool.false_eq_true,
    if_false, update_eq_self]

theorem initMem_of_none {s : State} (h : s.link = none) (hcreated : s.created = 0) (size : UInt32) :
    s.initMem size = ({ s with
      link := some 0
      created := 1
      files := update s.files 0 ⟨{}, size.toNat + 4, []⟩ },
      ⟨size, some 0, some (), .dwSize, false, size⟩) := by
  simp only [State.initMem, h, hcreated, init_eq, Option.getD_none, Option.isNone_none, if_true]

theorem Outgoing.dwSize_ne (m : Outgoing) (h : m.layout.length < 2 ^ 32) :
    UInt32.ofNat m.layout.length ≠ 1 := by
  intro hone
  have hsize := congrArg UInt32.toNat hone
  rw [UInt32.toNat_ofNat_of_lt' h, m.length_layout] at hsize
  change 24 + m.extra.length = 1 at hsize
  omega

theorem Outgoing.length_lt (m : Outgoing)
    (h : 4 + m.layout.length ≤ mapped ((UInt32.ofNat m.layout.length).toNat + 4)) :
    m.layout.length < 2 ^ 32 := by
  by_contra hge
  have hmod : (UInt32.ofNat m.layout.length).toNat = m.layout.length % 2 ^ 32 :=
    UInt32.toNat_ofNat'
  have hextra : m.extra.length ≤ 4 + m.lpData.length := by
    unfold extra
    split_ifs
    · exact Nat.le_of_eq (by rw [List.length_append, Bytes.length_ofNat])
    · exact Nat.zero_le _
  have hlen := m.length_layout
  have hdata := m.cbData_lt
  rw [hmod] at h
  unfold mapped pageSize at h
  omega

/-- The client message is not sent yet. -/
def SPhase.early : SPhase → Bool
  | .start | .written | .ready | .faulted => true
  | _ => false

/-- The receiver has read the segment and not deleted its object. -/
def RPhase.reads : RPhase → Bool
  | .queued | .handling | .handled | .replied | .closing | .deleting => true
  | _ => false

/-- No handler runs, and none will be called. -/
def RPhase.past : RPhase → Bool
  | .handled | .replied | .closing | .deleting | .done => true
  | _ => false

/-- The result in the segment. -/
def State.ret (s : State) : ℕ :=
  if s.hasResult then (s.handlerRes.map UInt64.toNat).getD 0 else 0

/-- What is known in an orderly exchange. -/
structure Inv (m : Outgoing) (s : State) : Prop where
  intact : ∀ r ∈ s.invoked, r = m.received
  opened : s.readFailed = false
  result : ∀ v ∈ s.returned, s.handlerRes.map UInt64.toNat = some v
  /-- There is only one segment. -/
  linked : ∀ i, s.link = some i → i = 0
  /-- Without a segment nothing has happened. -/
  unlinked : s.link = none → s.created = 0 ∧ (s.sender = .start ∨ s.sender = .done)
  /-- A segment stays, so an exchange only comes to its end without one. -/
  finished : s.Finished → s.link = none ∧ s.evtRefs = 0
  /-- The segment of the sender has room for the message, and holds it. -/
  content : s.link = some 0 → s.sender ≠ .start → s.sender ≠ .faulted →
    s.sMem.shmid = some 0 ∧ Keeps s.sMem ∧ 4 + m.layout.length ≤ mapped (s.files 0).length ∧
      ∃ rest, (s.files 0).bytes = m.held s.ret rest
  early : s.sender.early = true → s.receiver = .none
  late : s.sender.early = false → s.sender ≠ .done → s.receiver ≠ .none
  started : s.receiver ≠ .none → s.link = some 0
  rMem : s.rMem.shmid.isSome = true →
    s.rMem.shmid = some 0 ∧ s.rMem.nRef = .dwSize ∧ s.rMem.dwSize = 0
  reads : s.receiver.reads = true → s.rMem.shmid.isSome = true
  queued : s.receiver = .queued → s.ipcMsg = ⟨m.msg, m.wp.toNat, m.lp.toNat, m.cbData⟩
  handled : s.handlerRes.isSome = true → s.receiver.past = true
  replied : s.hasResult = true → s.handlerRes.isSome = true

theorem inv_init (m : Outgoing) (old : Leftover) : Inv m (init old) := by
  constructor <;> simp +contextual [init, State.Finished, SPhase.early, RPhase.reads,
    SharedMemory.new]

namespace Inv

variable {m : Outgoing} {s : State}

theorem sound (hI : Inv m s) : Sound m s := ⟨hI.intact, hI.opened, hI.result, hI.finished⟩

theorem segment (hI : Inv m s) (h : s.receiver ≠ .none) :
    s.link = some 0 ∧ s.sender ≠ .start ∧ s.sender ≠ .faulted := by
  refine ⟨hI.started h, fun hs => h (hI.early ?_), fun hs => h (hI.early ?_)⟩ <;>
  · rw [hs]
    rfl

theorem handlerRes_eq_none (hI : Inv m s) (h : s.receiver.past = false) :
    s.handlerRes = none ∧ s.hasResult = false ∧ s.returned = none := by
  have hnone : s.handlerRes = none := by
    rw [← Option.not_isSome_iff_eq_none]
    intro hsome
    rw [hI.handled hsome] at h
    cases h
  refine ⟨hnone, ?_, ?_⟩
  · rw [← Bool.not_eq_true]
    intro hres
    have := hI.replied hres
    rw [hnone] at this
    cases this
  · rw [Option.eq_none_iff_forall_ne_some]
    intro v hv
    have := hI.result v hv
    rw [hnone] at this
    cases this

theorem link_eq (hI : Inv m s) (hstart : s.sender ≠ .start) (hdone : s.sender ≠ .done) :
    s.link = some 0 := by
  cases hlink : s.link with
  | none => exact absurd (hI.unlinked hlink).2 (not_or.2 ⟨hstart, hdone⟩)
  | some i => rw [hI.linked i hlink]

theorem not_finished (hI : Inv m s) (hlink : s.link = some 0) : ¬ s.Finished := fun hfin => by
  cases hlink.symm.trans (hI.finished hfin).1

theorem event (hI : Inv m s) (hlink : s.link = some 0) (evtRefs evtSignals : ℕ) (sEvt rEvt : Bool) :
    Inv m { s with evtRefs, evtSignals, sEvt, rEvt } :=
  { hI with finished := fun h => absurd h (hI.not_finished hlink) }

theorem sender (hI : Inv m s) {ph : SPhase} (hlink : s.link = some 0)
    (hstart : s.sender ≠ .start) (hfaulted : s.sender ≠ .faulted)
    (hearly : ph.early = true ↔ s.receiver = .none) (hend : ph = .done → s.receiver ≠ .done) :
    Inv m { s with sender := ph } := by
  refine { hI with
    unlinked := fun h => ?_
    finished := fun ⟨hdone, hrecv⟩ => ?_
    content := fun h _ _ => hI.content h hstart hfaulted
    early := hearly.1
    late := fun h _ hnone => by rw [hearly.2 hnone] at h; cases h }
  · cases hlink.symm.trans h
  · obtain rfl : ph = .done := hdone
    rcases hrecv with hrecv | hrecv
    · exact absurd (hearly.2 hrecv) (by decide)
    · exact absurd hrecv (hend rfl)

theorem receiver (hI : Inv m s) {ph : RPhase} (hrecv : s.receiver ≠ .none) (hnone : ph ≠ .none)
    (hreads : ph.reads = true → s.rMem.shmid.isSome = true)
    (hqueued : ph = .queued → s.ipcMsg = ⟨m.msg, m.wp.toNat, m.lp.toNat, m.cbData⟩)
    (hpast : s.receiver.past = true → ph.past = true)
    (hend : ph = .done → s.sender ≠ .done) : Inv m { s with receiver := ph } := by
  refine { hI with
    finished := fun ⟨hdone, hph⟩ => ?_
    early := fun h => absurd (hI.early h) hrecv
    late := fun _ _ => hnone
    started := fun _ => hI.started hrecv
    reads := hreads
    queued := hqueued
    handled := fun h => hpast (hI.handled h) }
  exact (hph.elim hnone fun h => hend h hdone).elim

/-- What the receiver has before it once its object is initialised. -/
theorem read_rMem (hI : Inv m s) (h : s.receiver ≠ .none) (hmem : s.rMem.shmid.isSome = true) :
    (∃ rest, s.buf s.rMem = m.held s.ret rest) ∧
      s.reach s.rMem = min (mapped 4) (mapped (s.files 0).length) ∧
      4 + m.layout.length ≤ mapped (s.files 0).length := by
  obtain ⟨hlink, hstart, hfaulted⟩ := hI.segment h
  obtain ⟨hshmid, -, hsize⟩ := hI.rMem hmem
  obtain ⟨-, -, hroom, hheld⟩ := hI.content hlink hstart hfaulted
  refine ⟨?_, ?_, hroom⟩
  · rw [State.buf, hshmid]
    exact hheld
  · rw [State.reach, hshmid, hsize]
    rfl

end Inv

theorem openEvent_eq (s : State) (bOk : Bool) :
    ∃ evtRefs evtSignals, s.openEvent bOk = { s with evtRefs, evtSignals } := by
  cases bOk
  · exact ⟨s.evtRefs, s.evtSignals, rfl⟩
  · exact ⟨_, _, rfl⟩

theorem closeEvent_eq (s : State) (bHandle : Bool) :
    ∃ evtRefs, s.closeEvent bHandle = { s with evtRefs } := by
  cases bHandle
  · exact ⟨s.evtRefs, rfl⟩
  · exact ⟨_, rfl⟩

theorem setEvent_eq (s : State) (bHandle : Bool) :
    ∃ evtSignals, s.setEvent bHandle = { s with evtSignals } := by
  cases bHandle
  · exact ⟨s.evtSignals, rfl⟩
  · exact ⟨_, rfl⟩

namespace Inv

variable {m : Outgoing} {post : Bool} {s s' : State}

/-! ### The steps of the sender -/

/-- `init` of the sender, of a new segment or of one that is there. -/
theorem initMem_eq (hI : Inv m s) (size : UInt32) : ∃ created files,
    s.initMem size = ({ s with link := some 0, created, files },
      ⟨size, some 0, some (), .dwSize, false, size⟩) := by
  cases hlink : s.link with
  | none => exact ⟨_, _, initMem_of_none hlink (hI.unlinked hlink).1 size⟩
  | some i =>
    obtain rfl := hI.linked i hlink
    refine ⟨s.created, s.files, (initMem_of_link hlink size).trans ?_⟩
    rw [← hlink]

theorem write (hI : Inv m s) (hs : s.sender = .start) : Inv m (s.write m) := by
  have hrecv : s.receiver = .none := hI.early (by rw [hs]; rfl)
  obtain ⟨-, hhas, -⟩ := hI.handlerRes_eq_none (by rw [hrecv]; rfl)
  obtain ⟨created, files, hinit⟩ := hI.initMem_eq (UInt32.ofNat m.layout.length)
  unfold State.write
  simp only [hinit, State.writeBuf, State.reach]
  split_ifs with hfits
  · obtain ⟨hmap, hroom⟩ := Nat.le_min.1 hfits
    refine { hI with
      linked := ?_
      unlinked := ?_
      finished := ?_
      content := ?_
      early := ?_
      late := ?_
      started := ?_ }
    · rintro i ⟨⟩
      rfl
    · intro h
      cases h
    · exact fun hfin => by cases hfin.1
    · intro _ _ _
      refine ⟨rfl, ⟨rfl, m.dwSize_ne (m.length_lt hmap)⟩, ?_,
        (files 0).bytes.drop m.layout.length, ?_⟩
      · simp only [update_self]
        exact hroom
      · simp only [State.ret, hhas, Bool.false_eq_true, if_false, update_self]
        exact List.append_assoc ..
    · exact fun _ => hrecv
    · exact fun h => by cases h
    · exact fun _ => rfl
  · refine { hI with
      linked := ?_
      unlinked := ?_
      finished := ?_
      content := ?_
      early := ?_
      late := ?_
      started := ?_ }
    · rintro i ⟨⟩
      rfl
    · intro h
      cases h
    · exact fun hfin => by cases hfin.1
    · exact fun _ _ h => absurd rfl h
    · exact fun _ => hrecv
    · exact fun h => by cases h
    · exact fun _ => rfl

theorem create (hI : Inv m s) {o : Create} (hgood : Orderly m s (.create o))
    (hn : Ipc.next m post s (.create o) = some s') : Inv m s' := by
  simp only [Ipc.next, Option.ite_none_right_eq_some] at hn
  obtain ⟨hs, hn⟩ := hn
  cases o with
  | fails =>
    obtain rfl := Option.some.inj hn
    obtain ⟨hlink, hrefs⟩ := hgood
    refine { hI with
      unlinked := fun h => ⟨(hI.unlinked h).1, .inr rfl⟩
      finished := fun _ => ⟨hlink, hrefs⟩
      content := fun h => ?_
      early := fun h => by cases h
      late := fun _ h => absurd rfl h }
    cases hlink.symm.trans h
  | failsCreated bTruncated => exact hgood.elim
  | ok =>
    obtain rfl := Option.some.inj hn
    exact hI.write hs

theorem createEvent (hI : Inv m s) {bOk : Bool}
    (hn : Ipc.next m post s (.createEvent bOk) = some s') : Inv m s' := by
  simp only [Ipc.next, Option.ite_none_right_eq_some, Option.some.injEq] at hn
  obtain ⟨hs, rfl⟩ := hn
  have hlink := hI.link_eq (by simp [hs]) (by simp [hs])
  obtain ⟨evtRefs, evtSignals, heq⟩ := openEvent_eq s bOk
  rw [heq]
  refine (hI.event hlink evtRefs evtSignals bOk s.rEvt).sender hlink (by simp [hs]) (by simp [hs])
    ?_ (by simp)
  exact iff_of_true rfl (hI.early (by rw [hs]; rfl))

theorem sendClientMessage (hI : Inv m s)
    (hn : Ipc.next m post s .sendClientMessage = some s') : Inv m s' := by
  simp only [Ipc.next, Option.ite_none_right_eq_some, Option.some.injEq] at hn
  obtain ⟨hs, rfl⟩ := hn
  have hlink := hI.link_eq (by simp [hs]) (by simp [hs])
  have hrecv := hI.early (by rw [hs]; rfl)
  have hres := (hI.handlerRes_eq_none (by rw [hrecv]; rfl)).1
  refine { hI with
    unlinked := ?_
    finished := ?_
    content := ?_
    early := ?_
    late := ?_
    started := ?_
    reads := ?_
    queued := ?_
    handled := ?_ }
  · exact fun h => by cases hlink.symm.trans h
  · exact fun hfin => by cases hfin.1
  · exact fun h _ _ => hI.content h (by simp [hs]) (by simp [hs])
  · exact fun h => by cases h
  · simp
  · exact fun _ => hlink
  · exact fun h => by cases h
  · simp
  · exact fun h => by rw [hres] at h; cases h

theorem sent (hI : Inv m s) {ph : SPhase} (hlate : s.sender.early = false) (hs : s.sender ≠ .done)
    (hph : ph.early = false) (hend : ph = .done → s.receiver ≠ .done) :
    Inv m { s with sender := ph } := by
  have hrecv := hI.late hlate hs
  obtain ⟨hlink, hstart, hfaulted⟩ := hI.segment hrecv
  refine hI.sender hlink hstart hfaulted (iff_of_false ?_ hrecv) hend
  rw [hph]
  exact Bool.false_ne_true

theorem read_ret (s : State) (m : Outgoing) (rest : List UInt8) :
    Bytes.read (m.held s.ret rest) 0 8 = s.ret := by
  have hlt : s.ret < 256 ^ 8 := by
    unfold State.ret
    cases s.hasResult with
    | false => exact Nat.zero_lt_succ _
    | true =>
      cases s.handlerRes with
      | none => exact Nat.zero_lt_succ _
      | some res => exact res.toNat_lt
  have hread := Bytes.read_append [] (Bytes.ofNat 8 s.ret) (m.body ++ rest) rfl
    (Bytes.length_ofNat 8 s.ret)
  exact hread.trans (Bytes.toNat_ofNat_of_lt hlt)

/-- The sender reads the result that is in the segment. -/
theorem read_sMem (hI : Inv m s) (hs : s.sender = .signalled) :
    Bytes.read (s.buf s.sMem) 0 8 = s.ret := by
  have hlink := hI.link_eq (by simp [hs]) (by simp [hs])
  obtain ⟨hmem, -, -, rest, hbuf⟩ := hI.content hlink (by simp [hs]) (by simp [hs])
  rw [State.buf, hmem, Option.map_some, Option.getD_some, hbuf, read_ret]

/-- The result in the segment is that of the handler exactly if it has been set or is 0. -/
theorem ret_eq_iff (hI : Inv m s) : s.handlerRes.map UInt64.toNat = some s.ret ↔
    (s.hasResult = true ∨ s.handlerRes = some 0) := by
  unfold State.ret
  cases hhas : s.hasResult with
  | true =>
    obtain ⟨res, hres⟩ := Option.isSome_iff_exists.1 (hI.replied hhas)
    rw [hres]
    exact iff_of_true rfl (Or.inl rfl)
  | false =>
    cases s.handlerRes with
    | none => simp
    | some res => simp [← UInt64.toNat_inj]

theorem readRet (hI : Inv m s) (hgood : Orderly m s .readRet)
    (hn : Ipc.next m post s .readRet = some s') : Inv m s' := by
  simp only [Ipc.next, Option.ite_none_right_eq_some, Option.some.injEq] at hn
  obtain ⟨hs, rfl⟩ := hn
  have hI' : Inv m { s with sender := .deleting } :=
    hI.sent (by rw [hs]; rfl) (by simp [hs]) rfl (by simp)
  refine { hI' with result := fun v hv => ?_ }
  obtain rfl := Option.some.inj hv
  rw [hI.read_sMem hs]
  exact hI.ret_eq_iff.2 hgood

theorem detach (hI : Inv m s) (hn : Ipc.next m post s .detach = some s') : Inv m s' := by
  simp only [Ipc.next, Option.ite_none_right_eq_some, Option.some.injEq] at hn
  obtain ⟨⟨hs, -⟩, rfl⟩ := hn
  have hI' : Inv m { s with sender := .postClosing } :=
    hI.sent (by rw [hs]; rfl) (by simp [hs]) rfl (by simp)
  refine { hI' with content := fun h hstart hf => ?_ }
  obtain ⟨hmem, hkeeps, hbuf⟩ := hI'.content h hstart hf
  exact ⟨hmem, ⟨hkeeps.nRef, hkeeps.dwSize⟩, hbuf⟩

theorem keeps_sMem (hI : Inv m s) (hs : s.sender = .deleting ∨ s.sender = .postDeleting) :
    s.deleteMem s.sMem = s := by
  have hne : s.sender ≠ .start ∧ s.sender ≠ .done ∧ s.sender ≠ .faulted := by
    rcases hs with hs | hs <;> simp [hs]
  exact (hI.content (hI.link_eq hne.1 hne.2.1) hne.1 hne.2.2).2.1.deleteMem

theorem deleteMem (hI : Inv m s) (hgood : Orderly m s .deleteMem)
    (hn : Ipc.next m post s .deleteMem = some s') : Inv m s' := by
  simp only [Ipc.next] at hn
  split at hn
  · next hs =>
    obtain rfl := Option.some.inj hn
    rw [hI.keeps_sMem (.inl hs)]
    exact hI.sent (by rw [hs]; rfl) (by simp [hs]) rfl (by simp)
  · next hs =>
    obtain rfl := Option.some.inj hn
    rw [hI.keeps_sMem (.inr hs)]
    exact hI.sent (by rw [hs]; rfl) (by simp [hs]) rfl fun _ => hgood hs
  · cases hn

theorem closeEvent (hI : Inv m s) (hgood : Orderly m s .closeEvent)
    (hn : Ipc.next m post s .closeEvent = some s') : Inv m s' := by
  obtain ⟨evtRefs, heq⟩ := closeEvent_eq s s.sEvt
  simp only [Ipc.next, heq] at hn
  split at hn
  · next hs =>
    obtain rfl := Option.some.inj hn
    have hlink := hI.link_eq (by simp [hs]) (by simp [hs])
    exact (hI.event hlink evtRefs s.evtSignals s.sEvt s.rEvt).sent (by rw [hs]; rfl)
      (by simp [hs]) rfl fun _ => hgood hs
  · next hs =>
    obtain rfl := Option.some.inj hn
    have hlink := hI.link_eq (by simp [hs]) (by simp [hs])
    exact (hI.event hlink evtRefs s.evtSignals s.sEvt s.rEvt).sent (by rw [hs]; rfl)
      (by simp [hs]) rfl (by simp)
  · cases hn

/-! ### The steps of the receiver -/

theorem rOpenEvent (hI : Inv m s) {bOk : Bool}
    (hn : Ipc.next m post s (.rOpenEvent bOk) = some s') : Inv m s' := by
  simp only [Ipc.next, Option.ite_none_right_eq_some, Option.some.injEq] at hn
  obtain ⟨hs, rfl⟩ := hn
  have hrecv : s.receiver ≠ .none := by simp [hs]
  obtain ⟨evtRefs, evtSignals, heq⟩ := openEvent_eq s bOk
  rw [heq]
  refine (hI.event (hI.started hrecv) evtRefs evtSignals s.sEvt bOk).receiver hrecv (by simp)
    (fun h => by cases h) (by simp) (fun h => ?_) (by simp)
  simp [hs, RPhase.past] at h

theorem rInit (hI : Inv m s) {bOk : Bool}
    (hn : Ipc.next m post s (.rInit bOk) = some s') : Inv m s' := by
  simp only [Ipc.next, Option.ite_none_right_eq_some] at hn
  obtain ⟨hs, hn⟩ := hn
  have hrecv : s.receiver ≠ .none := by simp [hs]
  have hrest : ∀ ph, ph = RPhase.opened ∨ ph = .faulted → Inv m { s with receiver := ph } := by
    rintro ph (rfl | rfl) <;>
    exact hI.receiver hrecv (by simp) (fun h => by cases h) (by simp) (by simp [hs, RPhase.past])
      (by simp)
  cases bOk with
  | false =>
    obtain rfl := Option.some.inj hn
    exact hrest _ (.inl rfl)
  | true =>
    rw [initMem_of_link (hI.started hrecv)] at hn
    simp only [if_true] at hn
    split at hn
    · obtain rfl := Option.some.inj hn
      exact { hrest _ (.inl rfl) with
        rMem := fun _ => ⟨rfl, rfl, rfl⟩
        reads := fun h => by cases h }
    · obtain rfl := Option.some.inj hn
      exact { hrest _ (.inr rfl) with
        rMem := fun _ => ⟨rfl, rfl, rfl⟩
        reads := fun h => by cases h }

theorem rRead (hI : Inv m s) (hgood : Orderly m s .rRead)
    (hn : Ipc.next m post s .rRead = some s') : Inv m s' := by
  simp only [Ipc.next, Option.ite_none_right_eq_some] at hn
  obtain ⟨hs, hn⟩ := hn
  have hrecv : s.receiver ≠ .none := by simp [hs]
  have hmem : s.rMem.shmid.isSome = true := hgood
  obtain ⟨⟨rest, hbuf⟩, -⟩ := hI.read_rMem hrecv hmem
  rw [if_pos hmem, hbuf, m.read_eq] at hn
  obtain rfl := Option.some.inj hn
  have hread : Inv m { s with ipcMsg := ⟨m.msg, m.wp.toNat, m.lp.toNat, m.cbData⟩ } :=
    { hI with queued := fun _ => rfl }
  exact hread.receiver hrecv (by simp) (fun _ => hmem) (fun _ => rfl)
    (by simp [hs, RPhase.past]) (by simp)

theorem received_iff (hI : Inv m s) (h : s.receiver = .queued) :
    s.ipcMsg.received (s.buf s.rMem) (s.reach s.rMem) = m.received ↔
      (m.msg = WM_COPYDATA → 4 + 28 + m.lpData.length ≤ pageSize) := by
  have hmem := hI.reads (by rw [h]; rfl)
  obtain ⟨⟨rest, hbuf⟩, hreach, hroom⟩ := hI.read_rMem (by simp [h]) hmem
  rw [hI.queued h, hbuf, hreach]
  exact m.received_eq_iff s.ret rest hroom

theorem rDispatch (hI : Inv m s) (hgood : Orderly m s .rDispatch)
    (hn : Ipc.next m post s .rDispatch = some s') : Inv m s' := by
  simp only [Ipc.next, Option.ite_none_right_eq_some, Option.some.injEq] at hn
  obtain ⟨hs, rfl⟩ := hn
  have hI' : Inv m { s with receiver := .handling } :=
    hI.receiver (by simp [hs]) (by simp) (fun _ => hI.reads (by rw [hs]; rfl)) (by simp)
      (by simp [hs, RPhase.past]) (by simp)
  refine { hI' with intact := fun r hr => ?_ }
  obtain rfl := Option.some.inj hr
  exact (hI.received_iff hs).2 hgood

theorem rReturn (hI : Inv m s) {res : UInt64}
    (hn : Ipc.next m post s (.rReturn res) = some s') : Inv m s' := by
  simp only [Ipc.next, Option.ite_none_right_eq_some, Option.some.injEq] at hn
  obtain ⟨hs, rfl⟩ := hn
  have hI' : Inv m { s with receiver := .handled } :=
    hI.receiver (by simp [hs]) (by simp) (fun _ => hI.reads (by rw [hs]; rfl)) (by simp)
      (fun _ => rfl) (by simp)
  obtain ⟨-, hhas, hreturned⟩ := hI.handlerRes_eq_none (by rw [hs]; rfl)
  refine { hI' with
    result := fun v hv => ?_
    content := fun h hstart hf => ?_
    handled := fun _ => rfl
    replied := fun _ => rfl }
  · rw [hreturned] at hv
    cases hv
  · have hbuf := hI'.content h hstart hf
    simpa only [State.ret, hhas, Bool.false_eq_true, if_false] using hbuf

theorem setResult (hI : Inv m s) {res : UInt64} (hres : s.handlerRes = some res)
    (hph : s.receiver = .handled) :
    Inv m { s.writeBuf s.rMem (Bytes.ofNat 8 res.toNat) with
      hasResult := true
      receiver := .replied } := by
  obtain ⟨hlink, hstart, hfaulted⟩ := hI.segment (by simp [hph])
  have hmem := hI.reads (by rw [hph]; rfl)
  obtain ⟨hs, hkeeps, hroom, rest, hheld⟩ := hI.content hlink hstart hfaulted
  rw [State.writeBuf, (hI.rMem hmem).1]
  refine { hI with
    finished := ?_
    content := ?_
    early := ?_
    late := ?_
    started := ?_
    reads := ?_
    queued := ?_
    handled := ?_
    replied := ?_ }
  · rintro ⟨-, h | h⟩ <;> cases h
  · intro _ _ _
    refine ⟨hs, hkeeps, ?_, rest, ?_⟩
    · simp only [update_self]
      exact hroom
    · simp only [State.ret, hres, update_self, if_true, Option.map_some, Option.getD_some,
        hheld, Outgoing.held, Bytes.length_ofNat]
      rw [List.drop_left' (Bytes.length_ofNat ..)]
  · exact fun h => absurd (hI.early h) (by simp [hph])
  · simp
  · exact fun _ => hlink
  · exact fun _ => hmem
  · simp
  · exact fun _ => rfl
  · exact fun _ => by rw [hres]; rfl

theorem rSetResult (hI : Inv m s) (hn : Ipc.next m post s .rSetResult = some s') : Inv m s' := by
  simp only [Ipc.next] at hn
  split at hn
  · next res hs hres =>
    obtain rfl := Option.some.inj hn
    have hI' := hI.setResult hres hs
    obtain ⟨evtSignals, heq⟩ :=
      setEvent_eq (s.writeBuf s.rMem (Bytes.ofNat 8 res.toNat)) s.rEvt
    rw [heq]
    exact hI'.event (hI'.started (by simp)) _ evtSignals _ _
  · cases hn

theorem rDestruct (hI : Inv m s) (hn : Ipc.next m post s .rDestruct = some s') : Inv m s' := by
  simp only [Ipc.next, Option.ite_none_right_eq_some, Option.some.injEq] at hn
  obtain ⟨hs, rfl⟩ := hn
  have hrecv : s.receiver ≠ .none := by rcases hs with hs | hs | hs <;> simp [hs]
  have hmem : s.rMem.shmid.isSome = true :=
    hI.reads (by rcases hs with hs | hs | hs <;> rw [hs] <;> rfl)
  obtain ⟨evtSignals, heq⟩ := setEvent_eq s (s.rEvt && !s.hasResult)
  rw [heq]
  exact (hI.event (hI.started hrecv) s.evtRefs evtSignals s.sEvt s.rEvt).receiver hrecv
    (by simp) (fun _ => hmem) (by simp) (fun _ => rfl) (by simp)

theorem rCloseEvent (hI : Inv m s) (hn : Ipc.next m post s .rCloseEvent = some s') : Inv m s' := by
  simp only [Ipc.next, Option.ite_none_right_eq_some, Option.some.injEq] at hn
  obtain ⟨hs, rfl⟩ := hn
  have hrecv : s.receiver ≠ .none := by simp [hs]
  obtain ⟨evtRefs, heq⟩ := closeEvent_eq s s.rEvt
  rw [heq]
  exact (hI.event (hI.started hrecv) evtRefs s.evtSignals s.sEvt s.rEvt).receiver hrecv
    (by simp) (fun _ => hI.reads (by rw [hs]; rfl)) (by simp) (fun _ => rfl) (by simp)

theorem keeps_rMem (hI : Inv m s) (hs : s.receiver = .deleting) : s.deleteMem s.rMem = s := by
  obtain ⟨-, hnRef, hsize⟩ := hI.rMem (hI.reads (by rw [hs]; rfl))
  have hkeeps : Keeps s.rMem := ⟨hnRef, by rw [hsize]; decide⟩
  exact hkeeps.deleteMem

theorem rDeleteMem (hI : Inv m s) (hgood : Orderly m s .rDeleteMem)
    (hn : Ipc.next m post s .rDeleteMem = some s') : Inv m s' := by
  simp only [Ipc.next, Option.ite_none_right_eq_some, Option.some.injEq] at hn
  obtain ⟨hs, rfl⟩ := hn
  rw [hI.keeps_rMem hs]
  exact hI.receiver (by simp [hs]) (by simp) (fun h => by cases h) (by simp) (fun _ => rfl)
    fun _ => hgood

/-! ### The exchange -/

theorem next (hI : Inv m s) {act : Act} (hgood : Orderly m s act)
    (hn : Ipc.next m post s act = some s') : Inv m s' := by
  cases act with
  | create o => exact hI.create hgood hn
  | createEvent bOk => exact hI.createEvent hn
  | sendClientMessage => exact hI.sendClientMessage hn
  | waitSignalled =>
    simp only [Ipc.next, Option.ite_none_right_eq_some, Option.some.injEq] at hn
    obtain ⟨⟨hs, -⟩, rfl⟩ := hn
    have hlink := hI.link_eq (by simp [hs]) (by simp [hs])
    exact (hI.event hlink s.evtRefs (s.evtSignals - 1) s.sEvt s.rEvt).sent (by rw [hs]; rfl)
      (by simp [hs]) rfl (by simp)
  | waitFails =>
    simp only [Ipc.next, Option.ite_none_right_eq_some, Option.some.injEq] at hn
    obtain ⟨⟨hs, -⟩, rfl⟩ := hn
    exact hI.sent (by rw [hs]; rfl) (by simp [hs]) rfl (by simp)
  | readRet => exact hI.readRet hgood hn
  | detach => exact hI.detach hn
  | deleteMem => exact hI.deleteMem hgood hn
  | closeEvent => exact hI.closeEvent hgood hn
  | rOpenEvent bOk => exact hI.rOpenEvent hn
  | rInit bOk => exact hI.rInit hn
  | rRead => exact hI.rRead hgood hn
  | rDispatch => exact hI.rDispatch hgood hn
  | rReturn res => exact hI.rReturn hn
  | rSetResult => exact hI.rSetResult hn
  | rDestruct => exact hI.rDestruct hn
  | rCloseEvent => exact hI.rCloseEvent hn
  | rDeleteMem => exact hI.rDeleteMem hgood hn

/-- A step that is not orderly does what the property excludes. -/
theorem orderly_of_sound (hI : Inv m s) {act : Act} (hn : Ipc.next m post s act = some s')
    (hsound : Sound m s') : Orderly m s act := by
  cases act with
  | create o =>
    simp only [Ipc.next, Option.ite_none_right_eq_some] at hn
    obtain ⟨hs, hn⟩ := hn
    have hrecv := hI.early (by rw [hs]; rfl)
    cases o with
    | fails =>
      obtain rfl := Option.some.inj hn
      exact hsound.cleaned ⟨rfl, Or.inl hrecv⟩
    | failsCreated bTruncated =>
      simp only [Option.ite_none_right_eq_some, Option.some.injEq] at hn
      obtain ⟨-, rfl⟩ := hn
      cases (hsound.cleaned ⟨rfl, Or.inl hrecv⟩).1
    | ok => trivial
  | rRead =>
    simp only [Ipc.next, Option.ite_none_right_eq_some] at hn
    obtain ⟨-, hn⟩ := hn
    by_contra hmem
    rw [if_neg (show ¬ s.rMem.shmid.isSome = true from hmem)] at hn
    obtain rfl := Option.some.inj hn
    cases hsound.opened
  | rDispatch =>
    simp only [Ipc.next, Option.ite_none_right_eq_some, Option.some.injEq] at hn
    obtain ⟨hs, rfl⟩ := hn
    exact (hI.received_iff hs).1 (hsound.intact _ rfl)
  | readRet =>
    simp only [Ipc.next, Option.ite_none_right_eq_some, Option.some.injEq] at hn
    obtain ⟨hs, rfl⟩ := hn
    have hresult := hsound.result _ rfl
    rw [hI.read_sMem hs] at hresult
    exact hI.ret_eq_iff.1 hresult
  | closeEvent =>
    intro hs hrecv
    have hlink := hI.link_eq (by simp [hs]) (by simp [hs])
    obtain ⟨evtRefs, heq⟩ := closeEvent_eq s s.sEvt
    simp only [Ipc.next, hs, heq, Option.some.injEq] at hn
    obtain rfl := hn
    cases hlink.symm.trans (hsound.cleaned ⟨rfl, Or.inr hrecv⟩).1
  | deleteMem =>
    intro hs hrecv
    have hlink := hI.link_eq (by simp [hs]) (by simp [hs])
    simp only [Ipc.next, hs, hI.keeps_sMem (.inr hs), Option.some.injEq] at hn
    obtain rfl := hn
    cases hlink.symm.trans (hsound.cleaned ⟨rfl, Or.inr hrecv⟩).1
  | rDeleteMem =>
    intro hdone
    simp only [Ipc.next, Option.ite_none_right_eq_some, Option.some.injEq] at hn
    obtain ⟨hs, rfl⟩ := hn
    have hlink := hI.started (by simp [hs])
    rw [hI.keeps_rMem hs] at hsound
    cases hlink.symm.trans (hsound.cleaned ⟨hdone, Or.inr rfl⟩).1
  | createEvent | sendClientMessage | waitSignalled | waitFails | detach | rOpenEvent | rInit
  | rReturn | rSetResult | rDestruct | rCloseEvent => trivial

end Inv

/-- **A message to another process**: an exchange is sound in all its states if and only if its
steps are orderly, whatever there was under its names. -/
theorem sound_iff (m : Outgoing) (post : Bool) (old : Leftover) (acts : List Act) :
    (lts m post).AllStates (Sound m) (init old) acts ↔
      (lts m post).AllSteps (Orderly m) (init old) acts :=
  LTS.allStates_iff_allSteps (I := Inv m) (fun _ hI => hI.sound)
    (fun _ _ _ hI hgood hn => hI.next hgood hn) (fun _ _ _ hI hn hs => hI.orderly_of_sound hn hs)
    (inv_init m old)

/-- `WM_USER + 1` without a payload. -/
def userMessage : Outgoing := ⟨0x401, 7, 9, [], by decide⟩

/-- A message that is sent, handled with the result 42 and answered, to the end of both sides. -/
def exchange : List Act :=
  [.create .ok, .createEvent true, .sendClientMessage, .rOpenEvent true, .rInit true, .rRead,
    .rDispatch, .rReturn 42, .rSetResult, .waitSignalled, .readRet, .deleteMem, .closeEvent,
    .rDestruct, .rCloseEvent, .rDeleteMem]

/-- The sender has its result, both sides are finished, and the segment still has its name. -/
theorem exchange_leaves_segment : ∃ s,
    (lts userMessage false).run (init {}) exchange = some s ∧ s.returned = some 42 ∧ s.Finished ∧
      s.link = some 0 ∧ ¬ Sound userMessage s := by
  refine ⟨_, rfl, by decide, ⟨rfl, Or.inr rfl⟩, rfl, fun h => ?_⟩
  cases (h.cleaned ⟨rfl, Or.inr rfl⟩).1

end Ipc

end Swinx
