import Mathlib

/-!
# Synchronisation objects and the steps of the calls on them

A synchronisation object is a pipe or FIFO holding one byte per signal, plus the data of its kind
(`Obj`).  Every API call on an object is cut into the steps another thread can come between
(`Op`), and `Op.act` executes one of them:

* `WaitForSingleObject` — `select` on the read descriptor, then `onWaitDone` of the object's kind
  (`WaitDone`), and again from `select` when `onWaitDone` finds the signal gone;
* `SetEvent`, `ResetEvent`, `ReleaseMutex`, `ReleaseSemaphore`;
* `timer_sched_loop` for a timer that is due, which may be at any time, and `CancelWaitableTimer`.

`readSignal` holds the object's lock between its `select` and its `read`, and every reader takes
that lock, so it is one step; a `write` of one byte is one step; the locked sections of semaphores
are modelled with their lock, one step per access.  A pipe is a number of tokens: writes succeed.

The observable effects of the steps are recorded as `Ev`s.
-/

namespace Swinx

namespace Sync

/-- Thread ids; `0` is kept free for "no owner". -/
abbrev Tid := ℕ+

/-! The threads of the schedules below are written as numerals. -/

instance tidOne : OfNat Tid 1 := ⟨⟨1, Nat.one_pos⟩⟩

instance tidTwo : OfNat Tid 2 := ⟨⟨2, Nat.two_pos⟩⟩

theorem tidThree_pos : 0 < 3 := by decide

instance tidThree : OfNat Tid 3 := ⟨⟨3, tidThree_pos⟩⟩

/-- The value `WAIT_OBJECT_0`. -/
def WAIT_OBJECT_0 : ℕ := 0
/-- The value `WAIT_ABANDONED`. -/
def WAIT_ABANDONED : ℕ := 0x80
/-- The value `WAIT_TIMEOUT`. -/
def WAIT_TIMEOUT : ℕ := 258
/-- The value `WAIT_FAILED`, also what `-1` becomes in a `DWORD`. -/
def WAIT_FAILED : ℕ := 0xFFFFFFFF

/-- The data of an object, by kind.  Of a timer only the field the waits read is kept; when it is
due is left open. -/
inductive Data where
  /-- `EventData` -/
  | event (bManualReset : Bool)
  /-- `SemaphoreData` -/
  | semaphore (sigCount maxSignal : ℤ)
  /-- `MutexData` -/
  | mutex (tid_owner : ℕ)
  /-- `TimerData` -/
  | timer (bManualReset : Bool)
  deriving DecidableEq, Repr

/-- The part of the data that no call changes: the type of the object and its reset mode. -/
inductive Kind where
  | event (bManualReset : Bool)
  | semaphore
  | mutex
  | timer (bManualReset : Bool)
  deriving DecidableEq, Repr

/-- The kind of an object. -/
def Data.kind : Data → Kind
  | .event b => .event b
  | .semaphore _ _ => .semaphore
  | .mutex _ => .mutex
  | .timer b => .timer b

/-- Waits do not change objects of this kind. -/
def Kind.manualReset : Kind → Bool
  | .event b => b
  | .timer b => b
  | _ => false

/-- Waits take all the signals of objects of this kind. -/
def Kind.autoReset : Kind → Bool
  | .event b => !b
  | .timer b => !b
  | _ => false

/-- A synchronisation object: its data, the bytes in its pipe and the holder of its lock. -/
structure Obj where
  /-- What `getData` returns. -/
  data : Data
  /-- Bytes in the pipe. -/
  tokens : ℕ
  /-- The thread inside a locked section of several steps. -/
  lock : Option Tid
  deriving DecidableEq

namespace Obj

/-- `readSignal`: take one byte if there is one. -/
def readSignal (ob : Obj) : Option Obj :=
  if 0 < ob.tokens then some { ob with tokens := ob.tokens - 1 } else none

/-- `writeSignal`: put one byte. -/
def writeSignal (ob : Obj) : Obj := { ob with tokens := ob.tokens + 1 }

/-- The read descriptor is ready. -/
def ready (ob : Obj) : Bool := decide (0 < ob.tokens)

/-- A manual-reset event or timer: waits do not change it. -/
def manualReset (ob : Obj) : Bool := ob.data.kind.manualReset

/-- `CreateEventA`. -/
def createEvent (bManualReset bInitialState : Bool) : Obj :=
  let ob : Obj := ⟨.event bManualReset, 0, none⟩
  if bInitialState then ob.writeSignal else ob

/-- The loop of `SemaphoreOp::init`, which writes the initial signals. -/
def initSignals : ℕ → Obj → Obj
  | 0, ob => ob
  | i + 1, ob => initSignals i ob.writeSignal

/-- `CreateSemaphoreA`. -/
def createSemaphore (lInitialCount lMaximumCount : ℤ) : Obj :=
  initSignals lInitialCount.toNat ⟨.semaphore lInitialCount lMaximumCount, 0, none⟩

/-- `CreateWaitableTimerA`. -/
def createWaitableTimer (bManualReset : Bool) : Obj := ⟨.timer bManualReset, 0, none⟩

/-- `CreateMutexA`, called by `t`. -/
def createMutex (t : Tid) (bInitialOwner : Bool) : Obj :=
  let ob : Obj := ⟨.mutex (if bInitialOwner then t else 0), 0, none⟩
  if bInitialOwner then ob else ob.writeSignal

theorem readSignal_eq_some {ob ob' : Obj} :
    ob.readSignal = some ob' ↔ 0 < ob.tokens ∧ ob' = { ob with tokens := ob.tokens - 1 } := by
  unfold readSignal
  split_ifs with h <;> simp [h, eq_comm]

theorem readSignal_data {ob ob' : Obj} (h : ob.readSignal = some ob') : ob'.data = ob.data := by
  rw [(readSignal_eq_some.1 h).2]

@[simp] theorem readSignal_eq_none {ob : Obj} : ob.readSignal = none ↔ ob.tokens = 0 := by
  unfold readSignal
  split_ifs with h <;> simp <;> omega

@[simp] theorem writeSignal_data (ob : Obj) : ob.writeSignal.data = ob.data := rfl
@[simp] theorem writeSignal_tokens (ob : Obj) : ob.writeSignal.tokens = ob.tokens + 1 := rfl
@[simp] theorem writeSignal_lock (ob : Obj) : ob.writeSignal.lock = ob.lock := rfl

theorem initSignals_eq (n : ℕ) (ob : Obj) :
    initSignals n ob = { ob with tokens := ob.tokens + n } := by
  induction n generalizing ob with
  | zero => rfl
  | succ n ih => rw [initSignals, ih]; simp [writeSignal, Nat.add_comm, Nat.add_left_comm]

end Obj

/-- What a call returns. -/
inductive Ret where
  /-- A `BOOL`. -/
  | bool (b : Bool)
  /-- The `DWORD` of a wait. -/
  | wait (r : ℕ)
  /-- `ReleaseSemaphore`: its `BOOL` and `*lpPreviousCount`, if it was written. -/
  | count (b : Bool) (prev : Option ℤ)
  deriving DecidableEq, Repr

/-- Effects of steps on an object. -/
inductive Ev where
  /-- `SetEvent` wrote its byte. -/
  | set
  /-- A wait took its first byte from an auto-reset object: it will succeed. -/
  | took
  /-- A wait saw a manual-reset object signalled: it will succeed. -/
  | passed
  /-- `ResetEvent` found the pipe empty. -/
  | reset
  /-- `onWaitDone` returned true. -/
  | acquired
  /-- `ReleaseMutex` wrote its byte. -/
  | posted
  /-- `ReleaseSemaphore` raised the count. -/
  | released (n : ℤ)
  /-- The call returned. -/
  | returned (r : Ret)
  deriving DecidableEq, Repr

/-! ### onWaitDone -/

/-- Progress inside `onWaitDone`. -/
inductive WaitDone where
  /-- At its first statement. -/
  | enter
  /-- `EventOp`, `TimerOp`: in the loop that clears all signals. -/
  | drain (signals : ℕ)
  /-- `SemaphoreOp`: lock taken. -/
  | locked
  /-- `SemaphoreOp`: byte read, count not yet lowered. -/
  | counted
  /-- `SemaphoreOp`: before `unlock`. -/
  | unlock (ret : Bool)
  /-- `MutexOp`: byte read, owner not yet written. -/
  | owner
  deriving DecidableEq, Repr

namespace WaitDone

/-- `onWaitDone` goes on, or returns. -/
inductive Res where
  | more (w : WaitDone)
  | done (ret : Bool)
  deriving DecidableEq, Repr

/-- One round of `while (readSignal()) signals++; return signals > 0`. -/
def drainStep (ob : Obj) (signals : ℕ) : Obj × Res × List Ev :=
  match ob.readSignal with
  | some ob' => (ob', .more (.drain (signals + 1)), if signals = 0 then [.took] else [])
  | none => (ob, .done (decide (0 < signals)), if 0 < signals then [.acquired] else [])

/-- One step of `onWaitDone`, run by `t`. -/
def step (t : Tid) (ob : Obj) : WaitDone → Option (Obj × Res × List Ev)
  | .enter =>
    match ob.data with
    | .event b | .timer b =>
      if b then some (ob, .done true, [.acquired]) else some (drainStep ob 0)
    | .semaphore _ _ =>
      if ob.lock = none then some ({ ob with lock := some t }, .more .locked, []) else none
    | .mutex _ =>
      match ob.readSignal with
      | some ob' => some (ob', .more .owner, [])
      | none => some (ob, .done false, [])
  | .drain signals => some (drainStep ob signals)
  | .locked =>
    match ob.data with
    | .semaphore sigCount _ =>
      if 0 < sigCount then
        match ob.readSignal with
        | some ob' => some (ob', .more .counted, [])
        | none => some (ob, .more (.unlock false), [])
      else some (ob, .more (.unlock false), [])
    | _ => none
  | .counted =>
    match ob.data with
    | .semaphore sigCount maxSignal =>
      some ({ ob with data := .semaphore (sigCount - 1) maxSignal }, .more (.unlock true), [])
    | _ => none
  | .unlock ret =>
    some ({ ob with lock := none }, .done ret, if ret then [.acquired] else [])
  | .owner =>
    match ob.data with
    | .mutex _ => some ({ ob with data := .mutex t }, .done true, [.acquired])
    | _ => none

/-- This `onWaitDone` has taken a byte. -/
def took : WaitDone → Bool
  | .drain signals => decide (0 < signals)
  | .counted => true
  | .unlock ret => ret
  | .owner => true
  | _ => false

end WaitDone

namespace WaitDone

theorem drainStep_data (ob : Obj) (signals : ℕ) : (drainStep ob signals).1.data = ob.data := by
  unfold drainStep Obj.readSignal
  split_ifs <;> rfl

theorem step_kind {t : Tid} {ob ob' : Obj} {w : WaitDone} {r : Res} {evs : List Ev}
    (h : w.step t ob = some (ob', r, evs)) : ob'.data.kind = ob.data.kind := by
  have hd := drainStep_data ob
  have hr := fun ob' => @Obj.readSignal_data ob ob'
  cases w <;> simp only [step] at h <;> grind [Data.kind]

/-- Places inside `onWaitDone` that the kind of the object admits. -/
def fits (k : Kind) : WaitDone → Bool
  | .enter => true
  | .drain _ => k.autoReset
  | .locked | .counted | .unlock _ => decide (k = .semaphore)
  | .owner => decide (k = .mutex)

theorem fits_step {t : Tid} {ob ob' : Obj} {w w' : WaitDone} {evs : List Ev}
    (h : w.step t ob = some (ob', .more w', evs)) (hf : w.fits ob.data.kind = true) :
    w'.fits ob.data.kind = true := by
  cases w <;> simp only [step] at h <;> grind [drainStep, fits, Data.kind, Kind.autoReset]

end WaitDone

/-! ### Calls -/

/-- Progress inside a call on one object. -/
inductive Op where
  /-- `WaitForSingleObject`, in `select`. -/
  | select
  /-- `WaitForSingleObject`, in `onWaitDone`. -/
  | wait (w : WaitDone)
  /-- `WaitForSingleObject`, after `onWaitDone` returned false. -/
  | retry
  /-- `WaitForMultipleObjects`, in the `onWaitDone` of this object. -/
  | recheck (w : WaitDone)
  /-- `SetEvent`. -/
  | setEvent
  /-- `ResetEvent`, with the number of signals drained so far. -/
  | resetEvent (signals : ℕ)
  /-- `ReleaseMutex`, before its tests. -/
  | releaseMutex
  /-- `ReleaseMutex`, owner test passed. -/
  | post
  /-- `ReleaseMutex`, byte written, owner not yet cleared. -/
  | clear
  /-- `ReleaseSemaphore`, before its tests. -/
  | releaseSemaphore (lReleaseCount : ℤ)
  /-- `ReleaseSemaphore`, lock taken. -/
  | relTest (lReleaseCount : ℤ)
  /-- `ReleaseSemaphore`, with `k` bytes still to write. -/
  | relWrite (lReleaseCount prev : ℤ) (k : ℕ)
  /-- `ReleaseSemaphore`, before `unlock`. -/
  | relUnlock (lReleaseCount : ℤ) (prev : Option ℤ)
  /-- `timer_sched_loop`, at a timer that is due. -/
  | fireTimer
  /-- `CancelWaitableTimer`, in the loop that clears the pending signals. -/
  | cancelTimer
  deriving DecidableEq, Repr

/-- What the environment decides in a step of a call. -/
inductive Act where
  /-- Start a call. -/
  | start (op : Op)
  /-- Execute the next step. -/
  | run
  /-- The time-out of the wait expires. -/
  | timeout
  /-- `select` fails. -/
  | error
  deriving DecidableEq, Repr

namespace Op

/-- The first step of a call. -/
def isEntry : Op → Bool
  | .select | .recheck .enter | .setEvent | .resetEvent 0 | .releaseMutex
  | .releaseSemaphore _ | .fireTimer | .cancelTimer => true
  | _ => false

/-- A call goes on, or returns. -/
inductive Res where
  | more (op : Op)
  | ret (r : Ret)
  deriving DecidableEq, Repr

/-- What the thread does after a step. -/
def Res.toOp : Res → Option Op
  | .more op => some op
  | .ret _ => none

/-- What is recorded when the call returns. -/
def Res.evs : Res → List Ev
  | .more _ => []
  | .ret r => [.returned r]

/-- `WaitForSingleObject` after a step of `onWaitDone`. -/
def ofWaitDone : WaitDone.Res → Res
  | .more w => .more (.wait w)
  | .done true => .ret (.wait WAIT_OBJECT_0)
  | .done false => .more .retry

/-- `WaitForMultipleObjects` after a step of `onWaitDone`. -/
def ofRecheck : WaitDone.Res → Res
  | .more w => .more (.recheck w)
  | .done ret => .ret (.bool ret)

/-- The next step of a call by `t`, when the environment lets it run. -/
def step (t : Tid) (ob : Obj) : Op → Option (Obj × Res × List Ev)
  | .select =>
    if ob.ready then some (ob, .more (.wait .enter), if ob.manualReset then [.passed] else [])
    else none
  | .wait w => (w.step t ob).map fun x => (x.1, ofWaitDone x.2.1, x.2.2)
  | .retry => some (ob, .more .select, [])
  | .recheck w => (w.step t ob).map fun x => (x.1, ofRecheck x.2.1, x.2.2)
  | .setEvent =>
    match ob.data with
    | .event _ => some (ob.writeSignal, .ret (.bool true), [.set])
    | _ => some (ob, .ret (.bool false), [])
  | .resetEvent signals =>
    match ob.data with
    | .event _ =>
      match ob.readSignal with
      | some ob' => some (ob', .more (.resetEvent (signals + 1)), [])
      | none => some (ob, .ret (.bool true), [.reset])
    | _ => some (ob, .ret (.bool false), [])
  | .releaseMutex =>
    match ob.data with
    | .mutex tid_owner =>
      if tid_owner = t then some (ob, .more .post, []) else some (ob, .ret (.bool false), [])
    | _ => some (ob, .ret (.bool false), [])
  | .post => some (ob.writeSignal, .more .clear, [.posted])
  | .clear =>
    match ob.data with
    | .mutex _ => some ({ ob with data := .mutex 0 }, .ret (.bool true), [])
    | _ => none
  | .releaseSemaphore n =>
    match ob.data with
    | .semaphore _ _ =>
      if n ≤ 0 then some (ob, .ret (.count false none), [])
      else if ob.lock = none then some ({ ob with lock := some t }, .more (.relTest n), [])
      else none
    | _ => some (ob, .ret (.count false none), [])
  | .relTest n =>
    match ob.data with
    | .semaphore sigCount maxSignal =>
      if maxSignal - sigCount < n then some (ob, .more (.relUnlock n none), [])
      else some (ob, .more (.relWrite n sigCount n.toNat), [])
    | _ => none
  | .relWrite n prev k =>
    if 0 < k then some (ob.writeSignal, .more (.relWrite n prev (k - 1)), [])
    else
      match ob.data with
      | .semaphore sigCount maxSignal =>
        some ({ ob with data := .semaphore (sigCount + n) maxSignal },
          .more (.relUnlock n (some prev)), [])
      | _ => none
  | .relUnlock n prev =>
    some ({ ob with lock := none }, .ret (.count prev.isSome prev),
      if prev.isSome then [.released n] else [])
  | .fireTimer =>
    match ob.data with
    | .timer _ => some (ob.writeSignal, .ret (.bool true), [])
    | _ => some (ob, .ret (.bool false), [])
  | .cancelTimer =>
    match ob.data with
    | .timer _ =>
      match ob.readSignal with
      | some ob' => some (ob', .more .cancelTimer, [])
      | none => some (ob, .ret (.bool true), [])
    | _ => some (ob, .ret (.bool false), [])

/-- One step of a call by `t`.  `select` times out only while its descriptor is not ready. -/
def act (t : Tid) (ob : Obj) (op : Op) : Act → Option (Obj × Res × List Ev)
  | .start _ => none
  | .run => op.step t ob
  | .timeout =>
    match op with
    | .select => if ob.ready then none else some (ob, .ret (.wait WAIT_TIMEOUT), [])
    | .retry => some (ob, .ret (.wait WAIT_TIMEOUT), [])
    | _ => none
  | .error =>
    match op with
    | .select => some (ob, .ret (.wait WAIT_ABANDONED), [])
    | _ => none

/-! ### Calls stay with their kind -/

theorem step_kind {t : Tid} {ob ob' : Obj} {op : Op} {r : Res} {evs : List Ev}
    (h : op.step t ob = some (ob', r, evs)) : ob'.data.kind = ob.data.kind := by
  have hr := fun ob' => @Obj.readSignal_data ob ob'
  cases op with
  | wait w | recheck w =>
    obtain ⟨x, hx, he⟩ := Option.map_eq_some_iff.1 h
    cases he
    exact WaitDone.step_kind hx
  | _ => grind [step, Data.kind, Obj.writeSignal]

theorem act_kind {t : Tid} {ob ob' : Obj} {op : Op} {a : Act} {r : Res} {evs : List Ev}
    (h : op.act t ob a = some (ob', r, evs)) : ob'.data.kind = ob.data.kind := by
  cases a with
  | run => exact step_kind h
  | start _ => cases h
  | timeout | error => cases op <;> grind [act]

/-- The call is at a place that the kind of its object admits. -/
def fits (k : Kind) : Op → Bool
  | .wait w | .recheck w => w.fits k
  | .post | .clear => decide (k = .mutex)
  | .relTest _ | .relWrite _ _ _ | .relUnlock _ _ => decide (k = .semaphore)
  | _ => true

theorem fits_of_isEntry {op : Op} (h : op.isEntry = true) (k : Kind) : op.fits k = true := by
  unfold isEntry at h
  split at h <;> simp_all [fits, WaitDone.fits]

theorem fits_step {t : Tid} {ob ob' : Obj} {op op' : Op} {evs : List Ev}
    (h : op.step t ob = some (ob', .more op', evs)) (hf : op.fits ob.data.kind = true) :
    op'.fits ob.data.kind = true := by
  cases op with
  | wait w | recheck w =>
    obtain ⟨⟨x, r, _⟩, hx, he⟩ := Option.map_eq_some_iff.1 h
    cases r with
    | more w' => cases he; exact WaitDone.fits_step hx hf
    | done b => cases b <;> cases he <;> rfl
  | _ => grind [step, fits, WaitDone.fits, Data.kind]

theorem fits_act {t : Tid} {ob ob' : Obj} {op op' : Op} {a : Act} {evs : List Ev}
    (h : op.act t ob a = some (ob', .more op', evs)) (hf : op.fits ob.data.kind = true) :
    op'.fits ob.data.kind = true := by
  cases a with
  | run => exact fits_step h hf
  | start _ => cases h
  | timeout | error => cases op <;> grind [act]

end Op

end Sync

end Swinx
