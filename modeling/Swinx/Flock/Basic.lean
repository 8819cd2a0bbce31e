import Mathlib
import Swinx.Data.CString
import Swinx.LTS.Basic
import Swinx.Posix.RecordLock

/-!
# The cross-process lock `TSemRwLock`

A lock object opens the lock file of its name, `/tmp/soui_flock_….lock`, and shares with the other
objects of its process on that file one `FlockGateState`: the mutex `gate` lets one thread of the
process in at a time, and `holders` decides who takes and who drops the record lock of the process.
Destroying an object gives its reference to the gate back and closes its descriptor.

`next` interleaves `init`, `lockShared`, `lockExclusive`, the unlocks and destructions of any
number of threads in any number of processes, one access to shared state at a time.
-/

namespace Swinx

namespace Flock

open Function (update update_apply update_eq_self)

/-! ### Lock files -/

/-- The name of a file. -/
abbrev Path := List UInt8

/-- The argument of `init`. -/
inductive Key where
  /-- `init(uint32_t _key)` -/
  | key (_key : UInt32)
  /-- `init(const char *name)`; `none` is the null pointer. -/
  | name (name : Option (List UInt8))
  deriving DecidableEq, Repr

/-- Is `c` one of `[A-Za-z0-9_-]`? -/
def isFileNameByte (c : UInt8) : Bool :=
  (97 ≤ c && c ≤ 122) || (65 ≤ c && c ≤ 90) || (48 ≤ c && c ≤ 57) || c == 95 || c == 45

/-- `sanitizeName`: every other byte becomes `_`. -/
def sanitizeName (name : Option (List UInt8)) : List UInt8 :=
  (name.getD (ascii "default")).map fun c => if isFileNameByte c then c else 95

/-- `m_lockPath` of an object initialised with this argument. -/
def lockPath : Key → Path
  | .key _key =>
    ascii "/tmp/" ++ ascii "soui_flock_key_" ++
      (Nat.toDigits 10 _key.toNat).map (fun c => c.toNat.toUInt8) ++ ascii ".lock"
  | .name name => ascii "/tmp/" ++ ascii "soui_flock_" ++ sanitizeName name ++ ascii ".lock"

/-! ### The state of a process -/

/-- `FlockGateState`: what the lock objects of one process on one path share. -/
structure GateState where
  /-- Is `gate` locked? -/
  gate : Bool := false
  /-- Is `opMutex` locked? -/
  opMutex : Bool := false
  /-- How many threads of the process are inside the lock. -/
  holders : ℤ := 0
  /-- How many lock objects refer to this state. -/
  refs : ℕ := 0
  deriving DecidableEq, Repr

/-- `FlockGateTable` of a process. -/
abbrev GateTable := Path → Option GateState

/-- `FlockGateTable::acquire`. -/
def GateTable.acquire (tb : GateTable) (path : Path) : GateTable :=
  update tb path <| some <|
    match tb path with
    | none => { refs := 1 }
    | some g => { g with refs := g.refs + 1 }

/-- `FlockGateTable::release`. -/
def GateTable.release (tb : GateTable) (path : Path) : GateTable :=
  match tb path with
  | none => tb
  | some g =>
    update tb path (if g.refs - 1 = 0 then none else some { g with refs := g.refs - 1 })

theorem GateTable.acquire_apply {tb : GateTable} {path path' : Path} :
    tb.acquire path path' = if path' = path then
      some (match tb path with
        | none => { refs := 1 }
        | some g => { g with refs := g.refs + 1 })
    else tb path' :=
  update_apply ..

theorem GateTable.release_apply {tb : GateTable} {path path' : Path} {g : GateState}
    (hg : tb path = some g) :
    tb.release path path' = if path' = path then
      (if g.refs - 1 = 0 then none else some { g with refs := g.refs - 1 })
    else tb path' := by
  rw [GateTable.release, hg]
  exact update_apply ..

/-- The members of a `TSemRwLock`, and whether its destructor has begun. -/
structure SemRwLock where
  /-- Is `m_fd` a descriptor, and not `-1`? -/
  fd : Bool := false
  /-- `m_lockPath` -/
  lockPath : Path := []
  /-- Is `m_gate` not null? -/
  gate : Bool := false
  destroyed : Bool := false
  deriving DecidableEq, Repr

/-! ### Threads -/

/-- The places in `lockShared` and `lockExclusive`, each before the access it is named for. -/
inductive LockAt where
  /-- `gate.lock()` -/
  | gate
  /-- `opMutex.lock()` -/
  | op
  /-- `if (holders++ == 0)` -/
  | count
  /-- `setFileLock` -/
  | file
  /-- `opMutex.unlock()` -/
  | opUnlock
  deriving DecidableEq, Repr

/-- The places in `unlockShared` and `unlockExclusive`, whose bodies are the same. -/
inductive UnlockAt where
  /-- `opMutex.lock()` -/
  | op
  /-- `if (--holders == 0)` -/
  | count
  /-- `setFileLock(F_UNLCK)` -/
  | file
  /-- `opMutex.unlock()` -/
  | opUnlock
  /-- `gate.unlock()` -/
  | gate
  deriving DecidableEq, Repr

/-- The call a thread is in. -/
inductive Pc (Obj : Type*) where
  | idle
  /-- In `init`, file open, before `flockGateAcquire`. -/
  | init (o : Obj)
  /-- In `lockShared` or `lockExclusive`. -/
  | lock (o : Obj) (m : LockMode) (place : LockAt)
  /-- In `unlockShared` or `unlockExclusive`. -/
  | unlock (o : Obj) (place : UnlockAt)
  /-- In the destructor, before `flockGateRelease`. -/
  | release (o : Obj)
  /-- In the destructor, before `close`. -/
  | close (o : Obj)
  deriving DecidableEq, Repr

/-- The lock object a thread works on. -/
def Pc.obj {Obj : Type*} : Pc Obj → Option Obj
  | .idle => none
  | .init o | .lock o _ _ | .unlock o _ | .release o | .close o => some o

/-- Which process a thread runs in, and which one a lock object lives in. -/
structure Processes (Thread Obj Pid : Type*) where
  thread : Thread → Pid
  object : Obj → Pid

/-- What a thread does in a step. -/
inductive Act (Obj : Type*) where
  /-- Call `init`; does `open` succeed? -/
  | init (o : Obj) (key : Key) (opened : Bool)
  /-- Call `lockShared` or `lockExclusive`. -/
  | lock (o : Obj) (m : LockMode)
  /-- Call the unlock that matches the section the thread is in. -/
  | unlock (o : Obj)
  /-- Destroy a lock object. -/
  | destroy (o : Obj)
  /-- Go on in the call; does `fcntl` succeed, where it is called? -/
  | step (ok : Bool)
  deriving DecidableEq, Repr

variable {Thread Obj Pid : Type*}

/-- The kernel, the processes and the threads. -/
structure State (Thread Obj Pid : Type*) where
  /-- The record locks on each file. -/
  locks : Path → RecordLocks Pid
  /-- The gate table of each process. -/
  gates : Pid → GateTable
  objs : Obj → SemRwLock
  pc : Thread → Pc Obj
  /-- The section a thread is in through a lock object: after the lock call, before the unlock. -/
  held : Thread → Obj → Option LockMode

/-- No lock object exists yet. -/
def State.init : State Thread Obj Pid :=
  ⟨fun _ => .empty, fun _ _ => none, fun _ => {}, fun _ => .idle, fun _ _ => none⟩

variable [DecidableEq Thread] [DecidableEq Obj] [DecidableEq Pid]

namespace State

variable (sys : Processes Thread Obj Pid) (s : State Thread Obj Pid)

/-- `*m_gate` of a lock object. -/
def gateState (o : Obj) : Option GateState := s.gates (sys.object o) (s.objs o).lockPath

/-- Move a thread to another place. -/
@[simps -fullyApplied]
def goto (t : Thread) (pc : Pc Obj) : State Thread Obj Pid :=
  { s with pc := update s.pc t pc }

/-- Write the members of a lock object. -/
@[simps -fullyApplied]
def setObj (o : Obj) (ob : SemRwLock) : State Thread Obj Pid :=
  { s with objs := update s.objs o ob }

/-- Write the gate table of a process. -/
@[simps -fullyApplied]
def setTable (p : Pid) (tb : GateTable) : State Thread Obj Pid :=
  { s with gates := update s.gates p tb }

/-- Write the record locks on a file. -/
@[simps -fullyApplied]
def setLocks (path : Path) (l : RecordLocks Pid) : State Thread Obj Pid :=
  { s with locks := update s.locks path l }

/-- A thread enters or leaves a section. -/
@[simps -fullyApplied]
def setHeld (t : Thread) (o : Obj) (m : Option LockMode) : State Thread Obj Pid :=
  { s with held := update s.held t (update (s.held t) o m) }

/-- Write `*m_gate`. -/
@[simps! -fullyApplied]
def setGateState (o : Obj) (g : GateState) : State Thread Obj Pid :=
  s.setTable (sys.object o)
    (update (s.gates (sys.object o)) (s.objs o).lockPath (some g))

/-- `setFileLock`: `none` is `F_UNLCK`; the call waits as long as `F_SETLKW` does, and goes on after
an error. -/
def setFileLock (o : Obj) (type : Option LockMode) (ok : Bool) :
    Option (State Thread Obj Pid) :=
  let path := (s.objs o).lockPath
  let l? := match type with
    | some m => (s.locks path).setlkw (sys.object o) m
    | none => some ((s.locks path).drop (sys.object o))
  if ok then l?.map fun l => s.setLocks path l
  else some s

variable {sys s} in
omit [DecidableEq Thread] [DecidableEq Obj] in
theorem gates_setGateState {o : Obj} {g : GateState} {p : Pid} {path : Path} :
    (s.setGateState sys o g).gates p path =
      if p = sys.object o ∧ path = (s.objs o).lockPath then some g else s.gates p path := by
  simp only [setGateState_gates, update_apply, ite_and]
  split_ifs with hp hpath
  · subst hp
    rw [update_apply, if_pos hpath]
  · subst hp
    rw [update_apply, if_neg hpath]
  · rfl

variable {sys s} in
omit [DecidableEq Thread] [DecidableEq Obj] in
theorem setGateState_self {o : Obj} {g : GateState} (hg : s.gateState sys o = some g) :
    s.setGateState sys o g = s := by
  rw [setGateState, ← hg, gateState, update_eq_self, setTable, update_eq_self]

variable {s} in
omit [DecidableEq Thread] [DecidableEq Obj] [DecidableEq Pid] in
theorem setLocks_self {path : Path} : s.setLocks path (s.locks path) = s := by
  rw [setLocks, update_eq_self]

variable {sys s} in
omit [DecidableEq Thread] [DecidableEq Obj] in
theorem setFileLock_eq_some {s' : State Thread Obj Pid} {o : Obj} {type : Option LockMode}
    {ok : Bool} (h : s.setFileLock sys o type ok = some s') :
    ∃ l, s' = s.setLocks (s.objs o).lockPath l ∧
      (∀ q m, q ≠ sys.object o → (s.locks (s.objs o).lockPath).Holds q m → l.Holds q m) ∧
      ∀ m, type = some m → ok = true → l.Holds (sys.object o) m := by
  unfold setFileLock at h
  split_ifs at h with hok
  · obtain ⟨l, hl, rfl⟩ := Option.map_eq_some_iff.1 h
    refine ⟨l, rfl, fun q m hq hm => ?_, fun m hm _ => ?_⟩
    · cases type with
      | some m' => exact (RecordLocks.holds_of_setlkw hl).2 (.inr ⟨hm, hq⟩)
      | none =>
        cases hl
        exact RecordLocks.holds_drop.2 ⟨hm, hq⟩
    · subst hm
      exact (RecordLocks.holds_of_setlkw hl).2 (.inl ⟨rfl, rfl⟩)
  · cases h
    exact ⟨s.locks (s.objs o).lockPath, setLocks_self.symm, fun q m _ hm => hm,
      fun m _ h => absurd h hok⟩

/-- `lockShared` and `lockExclusive` of a thread. -/
def lock (t : Thread) (o : Obj) (m : LockMode) (g : GateState) (ok : Bool) :
    LockAt → Option (State Thread Obj Pid)
  | .gate =>
    if g.gate then none
    else some ((s.setGateState sys o { g with gate := true }).goto t (.lock o m .op))
  | .op =>
    if g.opMutex then none
    else some ((s.setGateState sys o { g with opMutex := true }).goto t (.lock o m .count))
  | .count =>
    some ((s.setGateState sys o { g with holders := g.holders + 1 }).goto t
      (.lock o m (if g.holders = 0 then .file else .opUnlock)))
  | .file => (s.setFileLock sys o (some m) ok).map fun s' => s'.goto t (.lock o m .opUnlock)
  | .opUnlock =>
    some (((s.setGateState sys o { g with opMutex := false }).setHeld t o (some m)).goto t .idle)

/-- `unlockShared` and `unlockExclusive` of a thread. -/
def unlock (t : Thread) (o : Obj) (g : GateState) (ok : Bool) :
    UnlockAt → Option (State Thread Obj Pid)
  | .op =>
    if g.opMutex then none
    else some ((s.setGateState sys o { g with opMutex := true }).goto t (.unlock o .count))
  | .count =>
    some ((s.setGateState sys o { g with holders := g.holders - 1 }).goto t
      (.unlock o (if g.holders - 1 = 0 then .file else .opUnlock)))
  | .file => (s.setFileLock sys o none ok).map fun s' => s'.goto t (.unlock o .opUnlock)
  | .opUnlock => some ((s.setGateState sys o { g with opMutex := false }).goto t (.unlock o .gate))
  | .gate => some ((s.setGateState sys o { g with gate := false }).goto t .idle)

end State

variable (sys : Processes Thread Obj Pid)

/-- One step of the thread `l.1`. -/
def next (s : State Thread Obj Pid) (l : Thread × Act Obj) : Option (State Thread Obj Pid) :=
  match s.pc l.1, l.2 with
  | .idle, .init o key opened =>
    -- `assert(m_fd == -1)`; a failed `open` leaves the path behind and may be tried again.
    if sys.thread l.1 = sys.object o ∧ (s.objs o).fd = false ∧ (s.objs o).destroyed = false then
      some ((s.setObj o { s.objs o with fd := opened, lockPath := lockPath key }).goto l.1
        (if opened then .init o else .idle))
    else none
  | .init o, .step _ =>
    if (s.objs o).destroyed = false then
      some (((s.setObj o { s.objs o with gate := true }).setTable (sys.object o)
        ((s.gates (sys.object o)).acquire (s.objs o).lockPath)).goto l.1 .idle)
    else none
  | .idle, .lock o m =>
    if sys.thread l.1 = sys.object o ∧ (s.objs o).gate = true ∧ (s.objs o).destroyed = false then
      some (s.goto l.1 (.lock o m .gate))
    else none
  -- A call on a destroyed object has no defined effect; such a thread takes no step.
  | .lock o m place, .step ok =>
    if (s.objs o).gate = true ∧ (s.objs o).destroyed = false then
      (s.gateState sys o).bind fun g => s.lock sys l.1 o m g ok place
    else none
  | .idle, .unlock o =>
    if (s.held l.1 o).isSome ∧ (s.objs o).destroyed = false then
      some ((s.setHeld l.1 o none).goto l.1 (.unlock o .op))
    else none
  | .unlock o place, .step ok =>
    if (s.objs o).gate = true ∧ (s.objs o).destroyed = false then
      (s.gateState sys o).bind fun g => s.unlock sys l.1 o g ok place
    else none
  | .idle, .destroy o =>
    if sys.thread l.1 = sys.object o ∧ s.held l.1 o = none ∧ (s.objs o).destroyed = false then
      some ((s.setObj o { s.objs o with destroyed := true }).goto l.1 (.release o))
    else none
  | .release o, .step _ =>
    some (((s.setObj o { s.objs o with gate := false }).setTable (sys.object o)
      (if (s.objs o).gate then (s.gates (sys.object o)).release (s.objs o).lockPath
        else s.gates (sys.object o))).goto l.1 (.close o))
  | .close o, .step _ =>
    some (((s.setObj o { s.objs o with fd := false }).setLocks (s.objs o).lockPath
      (if (s.objs o).fd then (s.locks (s.objs o).lockPath).drop (sys.object o)
        else s.locks (s.objs o).lockPath)).goto l.1 .idle)
  | _, _ => none

/-- The lock as a transition system. -/
def lts : LTS (State Thread Obj Pid) (Thread × Act Obj) := ⟨next sys⟩

/-! ### What a step can do -/

/-- **The steps of `next`, with their guards.** -/
inductive Step (s : State Thread Obj Pid) :
    Thread × Act Obj → State Thread Obj Pid → Prop
  | init {t o key opened} (hpc : s.pc t = .idle) (hfd : (s.objs o).fd = false)
      (hd : (s.objs o).destroyed = false) :
      Step s (t, .init o key opened)
        ((s.setObj o { s.objs o with fd := opened, lockPath := lockPath key }).goto t
          (if opened then .init o else .idle))
  | acquire {t o ok} (hpc : s.pc t = .init o) (hd : (s.objs o).destroyed = false) :
      Step s (t, .step ok)
        (((s.setObj o { s.objs o with gate := true }).setTable (sys.object o)
          ((s.gates (sys.object o)).acquire (s.objs o).lockPath)).goto t .idle)
  | call {t o m} (hpc : s.pc t = .idle) : Step s (t, .lock o m) (s.goto t (.lock o m .gate))
  | lock {t o m place ok g s'} (hpc : s.pc t = .lock o m place)
      (ho : (s.objs o).gate = true ∧ (s.objs o).destroyed = false)
      (hg : s.gateState sys o = some g) (h : s.lock sys t o m g ok place = some s') :
      Step s (t, .step ok) s'
  | leave {t o m} (hpc : s.pc t = .idle) (hm : s.held t o = some m) :
      Step s (t, .unlock o) ((s.setHeld t o none).goto t (.unlock o .op))
  | unlock {t o place ok g s'} (hpc : s.pc t = .unlock o place)
      (ho : (s.objs o).gate = true ∧ (s.objs o).destroyed = false)
      (hg : s.gateState sys o = some g) (h : s.unlock sys t o g ok place = some s') :
      Step s (t, .step ok) s'
  | destroy {t o} (hpc : s.pc t = .idle) (hd : (s.objs o).destroyed = false) :
      Step s (t, .destroy o)
        ((s.setObj o { s.objs o with destroyed := true }).goto t (.release o))
  | release {t o ok} (hpc : s.pc t = .release o) :
      Step s (t, .step ok)
        (((s.setObj o { s.objs o with gate := false }).setTable (sys.object o)
          (if (s.objs o).gate then (s.gates (sys.object o)).release (s.objs o).lockPath
            else s.gates (sys.object o))).goto t (.close o))
  | close {t o ok} (hpc : s.pc t = .close o) :
      Step s (t, .step ok)
        (((s.setObj o { s.objs o with fd := false }).setLocks (s.objs o).lockPath
          (if (s.objs o).fd then (s.locks (s.objs o).lockPath).drop (sys.object o)
            else s.locks (s.objs o).lockPath)).goto t .idle)

variable {sys}

theorem step_of_next {s s' : State Thread Obj Pid} {l : Thread × Act Obj}
    (h : next sys s l = some s') : Step sys s l s' := by
  obtain ⟨t, a⟩ := l
  unfold next at h
  split at h
  case h_1 hpc ha =>
    obtain ⟨hc, hs⟩ := Option.ite_none_right_eq_some.1 h
    cases hs
    cases ha
    exact .init hpc hc.2.1 hc.2.2
  case h_2 hpc ha =>
    split_ifs at h with hc
    cases h
    cases ha
    exact .acquire hpc hc
  case h_3 hpc ha =>
    split_ifs at h
    cases h
    cases ha
    exact .call hpc
  case h_4 hpc ha =>
    split_ifs at h with hc
    cases ha
    obtain ⟨g, hg, hs⟩ := Option.bind_eq_some_iff.1 h
    exact .lock hpc hc hg hs
  case h_5 hpc ha =>
    split_ifs at h with hc
    cases h
    cases ha
    obtain ⟨m, hm⟩ := Option.isSome_iff_exists.1 hc.1
    exact .leave hpc hm
  case h_6 hpc ha =>
    split_ifs at h with hc
    cases ha
    obtain ⟨g, hg, hs⟩ := Option.bind_eq_some_iff.1 h
    exact .unlock hpc hc hg hs
  case h_7 hpc ha =>
    split_ifs at h with hc
    cases h
    cases ha
    exact .destroy hpc hc.2.2
  case h_8 hpc ha =>
    cases h
    cases ha
    exact .release hpc
  case h_9 hpc ha =>
    cases h
    cases ha
    exact .close hpc
  case h_10 => cases h

end Flock

end Swinx
