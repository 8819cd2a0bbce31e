import Mathlib.Data.Int.Notation
import Mathlib.Data.List.Basic
import Mathlib.Logic.Function.Basic
import Mathlib.Tactic.Tauto
import Swinx.LTS.Basic

/-!
# Events for hooks

`NotifyWinEvent` takes a snapshot of the hooks that match an event and then puts the event in a
queue; the pumps of all threads go through the queue and call the procedures of the snapshots.  The
hooks and the queue have a lock each, so a notification is two steps, and so is a dispatch: the
event is taken out of the queue, and then its procedures are called one by one, without a lock.

Events are numbered in the order of their snapshots, and an event is known by its number.  A
procedure is known by the handle of its hook.  A thread may do anything while it is in a
procedure; a dispatch in a dispatch returns at once.

* `State`, `Act`, `lts` — the hooks, the queue, the pumps and what was delivered.
* `Place`, `Holds` — where an event is.
* `Sound` — each event is delivered once to each hook of its snapshot, in order.
* `Orderly` — the steps that keep it so.
-/

namespace Swinx

namespace WinEvent

open Function (update)

/-! ### Hooks and events -/

/-- `WinEventHookEntry`; the procedure is known by the handle. -/
structure HookEntry where
  hHook : ℕ
  eventMin : ℕ
  eventMax : ℕ
  idProcess : ℕ
  idThread : ℕ
  flags : ℕ
  idRegThread : ℕ
  deriving DecidableEq, Repr

/-- `PendingWinEvent`, with the thread that emitted it. -/
structure Event where
  tid : ℕ
  event : ℕ
  hwnd : ℕ
  idObject : ℤ
  idChild : ℤ
  idThread : ℕ
  dwmsEventTime : ℕ
  /-- The snapshot. -/
  matched : List HookEntry
  deriving DecidableEq, Repr

/-- `e.flags & WINEVENT_SKIPOWNPROCESS` -/
def HookEntry.skipOwnProcess (e : HookEntry) : Bool := e.flags.testBit 1

/-- `e.flags & WINEVENT_SKIPOWNTHREAD` -/
def HookEntry.skipOwnThread (e : HookEntry) : Bool := e.flags.testBit 0

/-- The conditions of `SnapshotWinEventMatches`, in the process `pid`. -/
def eventMatches (pid : ℕ) (event idThread : ℕ) (e : HookEntry) : Bool :=
  if e.skipOwnProcess then false
  else if e.skipOwnThread ∧ idThread = e.idRegThread then false
  else if event < e.eventMin ∨ event > e.eventMax then false
  else if e.idProcess ≠ 0 ∧ e.idProcess ≠ pid then false
  else if e.idThread ≠ 0 ∧ e.idThread ≠ idThread then false
  else true

/-- `(DWORD)::GetCurrentThreadId()` -/
def dwThread (tid : ℕ) : ℕ := tid % 4294967296

/-- `OLEACC_EVENT_QUEUE_CAP` -/
def OLEACC_EVENT_QUEUE_CAP : ℕ := 512

/-- Where a thread is in `SwinxDispatchPendingWinEvents`. -/
inductive Pump
  /-- `t_inDispatchWinEvents` is `false`. -/
  | idle
  /-- It will look at the queue. -/
  | looking
  /-- It has called the first `i` procedures of the event. -/
  | firing (num i : ℕ)
  deriving DecidableEq, Repr

/-- A call of a procedure. -/
structure Delivery where
  num : ℕ
  hook : ℕ
  deriving DecidableEq, Repr

/-- An event that was dropped, and the queue as it was then. -/
structure Drop where
  num : ℕ
  queue : List ℕ
  deriving DecidableEq, Repr

/-- The hooks, the queue and the threads, and what has happened. -/
structure State where
  /-- `g_winEventHooks` -/
  hooks : List HookEntry
  /-- `g_nextHook` -/
  nextHook : ℕ
  /-- `g_pendingWinEvents` -/
  queue : List ℕ
  /-- The event that a thread has taken the snapshot for and not queued yet. -/
  emitting : ℕ → Option ℕ
  pump : ℕ → Pump
  /-- The threads that have called `SwinxDispatchPendingWinEvents`. -/
  threads : List ℕ
  /-- The number of events. -/
  count : ℕ
  /-- The events by number. -/
  event : ℕ → Event
  /-- The hooks and the next handle when an event was emitted. -/
  hooksAt : ℕ → List HookEntry
  nextAt : ℕ → ℕ
  /-- How many events had been queued before this one. -/
  seq : ℕ → ℕ
  /-- How many were queued. -/
  enqueued : ℕ
  /-- The calls of procedures, in order. -/
  delivered : List Delivery
  /-- The events with which nothing is left to do. -/
  done : List ℕ
  /-- What was dropped. -/
  drops : List Drop

def noEvent : Event := ⟨0, 0, 0, 0, 0, 0, 0, []⟩

/-- No hooks and no events. -/
def init : State where
  hooks := []
  nextHook := 1
  queue := []
  emitting := fun _ => none
  pump := fun _ => .idle
  threads := []
  count := 0
  event := fun _ => noEvent
  hooksAt := fun _ => []
  nextAt := fun _ => 0
  seq := fun _ => 0
  enqueued := 0
  delivered := []
  done := []
  drops := []

namespace State

/-- `SetWinEventHook`, with a procedure. -/
def setWinEventHook (s : State) (tid eventMin eventMax idProcess idThread dwFlags : ℕ) : State :=
  if eventMin > eventMax then s
  else
    { s with
      hooks := s.hooks ++
        [⟨s.nextHook, eventMin, eventMax, idProcess, idThread, dwFlags, dwThread tid⟩]
      nextHook := s.nextHook + 1 }

/-- `UnhookWinEvent` -/
def unhookWinEvent (s : State) (hook : ℕ) : State :=
  { s with hooks := s.hooks.eraseP fun e => e.hHook = hook }

/-- `NotifyWinEvent` to the end of `SnapshotWinEventMatches`.  An event without a hook is done. -/
def notify (pid : ℕ) (s : State) (tid event hwnd : ℕ) (idObject idChild : ℤ) (time : ℕ) :
    Option State :=
  if s.emitting tid = none then
    let matched := s.hooks.filter (eventMatches pid event (dwThread tid))
    let s :=
      { s with
        count := s.count + 1
        event := update s.event s.count
          ⟨tid, event, hwnd, idObject, idChild, dwThread tid, time, matched⟩
        hooksAt := update s.hooksAt s.count s.hooks
        nextAt := update s.nextAt s.count s.nextHook }
    if matched = [] then some { s with done := (s.count - 1) :: s.done }
    else some { s with emitting := update s.emitting tid (some (s.count - 1)) }
  else none

/-- The oldest event is dropped if the queue is full. -/
def makeRoom (s : State) : State :=
  match s.queue with
  | [] => s
  | num :: queue =>
    if s.queue.length ≥ OLEACC_EVENT_QUEUE_CAP then
      { s with
        queue
        drops := ⟨num, s.queue⟩ :: s.drops }
    else s

/-- The end of `NotifyWinEvent` -/
def enqueue (s : State) (tid : ℕ) : Option State :=
  match s.emitting tid with
  | none => none
  | some num =>
    let s := s.makeRoom
    some
      { s with
        queue := s.queue ++ [num]
        emitting := update s.emitting tid none
        seq := update s.seq num s.enqueued
        enqueued := s.enqueued + 1 }

/-- `SwinxDispatchPendingWinEvents` is called. -/
def enter (s : State) (tid : ℕ) : State :=
  if s.pump tid = .idle then
    { s with
      pump := update s.pump tid .looking
      threads := tid :: s.threads }
  else s

/-- An event is taken out of the queue, or the dispatch returns. -/
def pop (s : State) (tid : ℕ) : Option State :=
  if s.pump tid = .looking then
    match s.queue with
    | [] => some { s with pump := update s.pump tid .idle }
    | num :: queue =>
      some
        { s with
          queue
          pump := update s.pump tid (.firing num 0) }
  else none

/-- `FireWinEvent` calls the next procedure, or returns. -/
def fire (s : State) (tid : ℕ) : Option State :=
  match s.pump tid with
  | .firing num i =>
    match (s.event num).matched[i]? with
    | some e =>
      some
        { s with
          delivered := s.delivered ++ [⟨num, e.hHook⟩]
          pump := update s.pump tid (.firing num (i + 1)) }
    | none =>
      some
        { s with
          done := num :: s.done
          pump := update s.pump tid .looking }
  | _ => none

end State

/-- What a thread does. -/
inductive Act
  | setWinEventHook (tid eventMin eventMax idProcess idThread dwFlags : ℕ)
  | unhookWinEvent (hook : ℕ)
  | notify (tid event hwnd : ℕ) (idObject idChild : ℤ) (time : ℕ)
  | enqueue (tid : ℕ)
  | enter (tid : ℕ)
  | pop (tid : ℕ)
  | fire (tid : ℕ)
  deriving DecidableEq, Repr

/-- One step, in the process `pid`. -/
def next (pid : ℕ) (s : State) : Act → Option State
  | .setWinEventHook tid eventMin eventMax idProcess idThread dwFlags =>
    some (s.setWinEventHook tid eventMin eventMax idProcess idThread dwFlags)
  | .unhookWinEvent hook => some (s.unhookWinEvent hook)
  | .notify tid event hwnd idObject idChild time =>
    s.notify pid tid event hwnd idObject idChild time
  | .enqueue tid => s.enqueue tid
  | .enter tid => some (s.enter tid)
  | .pop tid => s.pop tid
  | .fire tid => s.fire tid

/-- The program. -/
def lts (pid : ℕ) : LTS State Act := ⟨next pid⟩

/-- Where an event is. -/
inductive Place
  | emitting (tid : ℕ)
  | queued
  | firing (tid i : ℕ)
  | done
  | dropped
  deriving DecidableEq, Repr

/-- The event is at this place. -/
def State.Holds (s : State) (num : ℕ) : Place → Prop
  | .emitting tid => s.emitting tid = some num
  | .queued => num ∈ s.queue
  | .firing tid i => s.pump tid = .firing num i
  | .done => num ∈ s.done
  | .dropped => ∃ d ∈ s.drops, d.num = num

/-- The handles of the snapshot. -/
def Event.handles (ev : Event) : List ℕ := ev.matched.map HookEntry.hHook

/-- The hooks that an event has been delivered to, if it is at this place. -/
def Place.reached (handles : List ℕ) : Place → List ℕ
  | .firing _ i => handles.take i
  | .done => handles
  | _ => []

/-- The hooks that an event has been delivered to, in the order of the calls. -/
def State.deliveredTo (s : State) (num : ℕ) : List ℕ :=
  (s.delivered.filter fun d => d.num = num).map Delivery.hook

/-- **The delivery of the events.** -/
structure Sound (pid : ℕ) (s : State) : Prop where
  /-- The snapshot has the hooks that match the event when it is emitted. -/
  snapshot : ∀ num < s.count, (s.event num).matched =
    (s.hooksAt num).filter (eventMatches pid (s.event num).event (s.event num).idThread)
  /-- Hooks that are installed later have other handles. -/
  later : ∀ num < s.count, ∀ hook ∈ (s.event num).handles, hook < s.nextAt num ∧
    s.nextAt num ≤ s.nextHook
  /-- An event is at one place at a time. -/
  place : ∀ num < s.count, ∃! pl, s.Holds num pl
  /-- It is delivered to the hooks of its snapshot, to each once, and to all when it is done. -/
  exact : ∀ num < s.count, ∀ pl, s.Holds num pl →
    s.deliveredTo num = pl.reached (s.event num).handles
  /-- No hook is in a snapshot twice. -/
  once : ∀ num < s.count, (s.event num).handles.Nodup
  /-- The events of one thread reach a hook in their order. -/
  order : s.delivered.Pairwise fun a b =>
    (s.event a.num).tid = (s.event b.num).tid → a.hook = b.hook → a.num < b.num
  /-- An event is dropped when the queue is full and it is the oldest one in it. -/
  drops : ∀ d ∈ s.drops, OLEACC_EVENT_QUEUE_CAP ≤ d.queue.length ∧ d.num ∈ d.queue ∧
    ∀ num ∈ d.queue, s.seq d.num ≤ s.seq num

/-- The pump does not deliver an event of the thread of `num` that has still to reach one of the
hooks of `num`. -/
def State.Clear (s : State) (num : ℕ) : Pump → Prop
  | .firing num' i => (s.event num').tid = (s.event num).tid →
    ∀ hook ∈ (s.event num').handles.drop i, hook ∉ (s.event num).handles
  | _ => True

instance decidableClear (s : State) (num : ℕ) (pump : Pump) : Decidable (s.Clear num pump) := by
  cases pump <;> unfold State.Clear <;> infer_instance

/-- **The steps that keep the delivery sound**: an event is not taken out of the queue while another
thread delivers an event of the same thread that has still to reach one of its hooks. -/
def Orderly (s : State) : Act → Prop
  | .pop tid =>
    s.pump tid = .looking → ∀ num ∈ s.queue.head?, ∀ t ∈ s.threads, s.Clear num (s.pump t)
  | _ => True

instance decidableOrderly (s : State) (act : Act) : Decidable (Orderly s act) := by
  cases act <;> unfold Orderly <;> infer_instance

end WinEvent

end Swinx
