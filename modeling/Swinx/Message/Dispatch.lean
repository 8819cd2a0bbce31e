import Mathlib.Data.Int.Notation
import Mathlib.Logic.Function.Basic
import Swinx.LTS.Basic
import Swinx.Message.Queue

/-!
# Peeking, dispatching and sending in a UI thread

`peekMsg` hands out a copy of a message and keeps the message itself in `m_msgPeek`.
`BeforeProcMsg` and `AfterProcMsg`, around every call of a window procedure, find it again by
comparing four fields: the first moves it to `m_msgStack`, the second takes it from there and sets
the result of its reply.

The model runs one UI thread.  Its control is a stack of invocations; whatever the innermost one
does next is a step, so every nesting of peeks, dispatches and direct sends is a run.

* `State.peekMsg`, `State.dispatchMessage`, `State.callWindowProcPriv`, `State.beforeProcMsg`,
  `State.afterProcMsg` — the functions of the source.
* `lts` — the thread as a transition system.
-/

namespace Swinx

namespace Message

namespace Deliver

/-- What the thread's message functions look at in a registered window. -/
structure Wnd where
  bDestroyed : Bool
  visible : Bool
  /-- It has a window procedure. -/
  winproc : Bool
  /-- `wParam` of its next `WM_SIZE`. -/
  state : ℕ
  deriving DecidableEq, Repr

/-- How far a window procedure call has come. -/
inductive Phase
  /-- In a branch that returns before `BeforeProcMsg`. -/
  | early
  /-- Before `BeforeProcMsg`. -/
  | pre
  /-- Between `BeforeProcMsg` and `AfterProcMsg`. -/
  | main
  deriving DecidableEq, Repr

/-- A call of `CallWindowProcPriv`. -/
structure Call where
  inv : ℕ
  /-- The fields as `CallWindowProcPriv` has rewritten them. -/
  fields : Fields
  /-- The removed message that is dispatched by this call. -/
  dispatched : Option ℕ
  phase : Phase
  deriving DecidableEq, Repr

/-- What the thread is in the middle of. -/
inductive Frame
  | proc (call : Call)
  /-- User code that runs inside `peekMsg`, which starts again afterwards. -/
  | peeking (f : Filter) (remove : Bool)
  deriving DecidableEq, Repr

/-- The result `res` of the invocation `inv`, for the reply of message `reply`. -/
structure Delivery where
  reply : ℕ
  inv : Option ℕ
  res : ℤ
  deriving DecidableEq, Repr

/-- The thread. -/
structure State where
  wnd : ℕ → Option Wnd
  /-- How many messages have been posted. -/
  posted : ℕ
  /-- `m_msgQueue` -/
  queue : List Msg
  /-- `m_msgPeek` -/
  peek : Option Msg
  /-- `m_bMsgNeedFree` -/
  needFree : Bool
  /-- `m_msgStack`, its back first. -/
  stack : List Msg
  /-- The messages that a peek has removed and that have not been dispatched. -/
  held : List Msg
  frames : List Frame
  /-- How many invocations have begun. -/
  calls : ℕ
  /-- The calls of `SetResult`. -/
  results : List Delivery
  /-- The dispatches of removed messages that have returned. -/
  returned : List Delivery

/-- The steps of the thread; `post`, `discard` and `setWindow` are also those of others. -/
inductive Act
  | post (fields : Fields)
  /-- A message is deleted from the queue (`KillTimer`, a merged mouse move). -/
  | discard (id : ℕ)
  | setWindow (hwnd : ℕ) (w : Option Wnd)
  | peekMsg (f : Filter) (remove : Bool)
  /-- The user code inside `peekMsg` is done. -/
  | peekAgain
  /-- `DispatchMessage` of a removed message. -/
  | dispatch (id : ℕ)
  /-- `DispatchMessage` of any other `MSG`. -/
  | redispatch (fields : Fields)
  | send (fields : Fields)
  | earlyReturn (res : ℤ)
  | beforeProcMsg
  /-- The handler returns. -/
  | afterProcMsg (res : ℤ)
  deriving DecidableEq, Repr

/-- A thread with an empty queue. -/
def init (wnd : ℕ → Option Wnd) : State := ⟨wnd, 0, [], none, false, [], [], [], 0, [], []⟩

namespace State

/-- The messages of this window are not processed. -/
def gone (s : State) (hwnd : ℕ) : Bool :=
  match s.wnd hwnd with
  | none => true
  | some w => w.bDestroyed

/-- The message in `m_msgPeek` if a peek has removed it from the queue. -/
def removed (s : State) : Option Msg := if s.needFree then s.peek else none

/-- `delete m_msgPeek` -/
def dropPeek (s : State) : State :=
  match s.removed with
  | none => s
  | some _ => { s with peek := none, needFree := false }

/-- `peekMsg` -/
def peekMsg (s : State) (f : Filter) (remove : Bool) : State :=
  let r := scan s.gone f s.queue
  match r.found with
  | none => { s with queue := r.passed ++ r.rest }
  | some m =>
    let s := s.dropPeek
    if m.message = WM_TIMER ∧ m.lParam ≠ 0 then
      { s with queue := r.passed ++ r.rest, frames := .peeking f remove :: s.frames }
    else if m.message = WM_TIMER ∧ m.wParam = TM_DELAY then
      { s with queue := r.passed ++ r.rest, frames := .peeking f remove :: s.frames }
    else if remove then
      { s with
        queue := r.passed ++ r.rest
        peek := some m
        needFree := true
        held := m :: s.held }
    else { s with queue := r.passed ++ m :: r.rest, peek := some m, needFree := false }

/-- A window procedure call that is over; a dispatched message waits for its result. -/
def recordReturn (s : State) (dispatched : Option ℕ) (inv : Option ℕ) (res : ℤ) : State :=
  match dispatched with
  | none => s
  | some id => { s with returned := s.returned ++ [⟨id, inv, res⟩] }

/-- A new invocation. -/
def call (s : State) (fields : Fields) (dispatched : Option ℕ) (phase : Phase) : State :=
  { s with
    frames := .proc ⟨s.calls, fields, dispatched, phase⟩ :: s.frames
    calls := s.calls + 1 }

/-- The branches of `CallWindowProcPriv` that return before `BeforeProcMsg`. -/
def returnsEarly (message : ℕ) : Bool :=
  message = UM_STATE || message = UM_SETTINGS ||
    UM_XDND_DRAG_ENTER ≤ message && message ≤ UM_XDND_DRAG_DROP

/-- `CallWindowProcPriv` up to its user code. -/
def callWindowProcPriv (s : State) (fields : Fields) (dispatched : Option ℕ) : State :=
  match s.wnd fields.hwnd with
  | none => s.recordReturn dispatched none (-1)
  | some w =>
    if returnsEarly fields.message then s.call fields dispatched .early
    else if fields.message = WM_SIZE then
      s.call { fields with wParam := w.state } dispatched .pre
    else s.call fields dispatched .pre

/-- `DispatchMessage` -/
def dispatchMessage (s : State) (fields : Fields) (dispatched : Option ℕ) : State :=
  if fields.hwnd = 0 then s.recordReturn dispatched none 0
  else if fields.message = WM_PAINT ∧ ((s.wnd fields.hwnd).any Wnd.visible) = false then
    s.recordReturn dispatched none 0
  else if fields.message = UM_CALLHOOK then s.call fields dispatched .pre
  else if ((s.wnd fields.hwnd).any Wnd.winproc) = false then s.recordReturn dispatched none 0
  else s.callWindowProcPriv fields dispatched

/-- `BeforeProcMsg` -/
def beforeProcMsg (s : State) (fields : Fields) : State :=
  match s.removed with
  | none => s
  | some m =>
    if m.toFields = fields then
      { s with stack := m :: s.stack, peek := none, needFree := false }
    else s

/-- The message `AfterProcMsg` sets the result of. -/
def found (s : State) (fields : Fields) : Option Msg :=
  if s.needFree then none else s.stack.head?.filter fun m => m.toFields = fields

/-- `AfterProcMsg` -/
def afterProcMsg (s : State) (fields : Fields) (inv : ℕ) (res : ℤ) : State :=
  match s.found fields with
  | none => s
  | some m =>
    { s with stack := s.stack.tail, results := s.results ++ [⟨m.id, some inv, res⟩] }

end State

/-- One step.  A window procedure call counts as over with its `AfterProcMsg`: what the code does
after it (the destruction of the children of a window) runs as if in the calling code. -/
def next (s : State) : Act → Option State
  | .post fields =>
    some { s with queue := s.queue ++ [⟨fields, s.posted⟩], posted := s.posted + 1 }
  | .discard id => some { s with queue := s.queue.filter fun m => m.id ≠ id }
  | .setWindow hwnd w => some { s with wnd := Function.update s.wnd hwnd w }
  | .peekMsg f remove => some (s.peekMsg f remove)
  | .peekAgain =>
    match s.frames with
    | .peeking f remove :: frames => some ({ s with frames }.peekMsg f remove)
    | _ => none
  | .dispatch id =>
    (s.held.find? fun m => m.id = id).map fun m =>
      { s with held := s.held.filter fun m => m.id ≠ id }.dispatchMessage m.toFields (some id)
  | .redispatch fields => some (s.dispatchMessage fields none)
  | .send fields => some (s.callWindowProcPriv fields none)
  | .earlyReturn res =>
    match s.frames with
    | .proc ⟨inv, _, dispatched, .early⟩ :: frames =>
      some ({ s with frames }.recordReturn dispatched (some inv) res)
    | _ => none
  | .beforeProcMsg =>
    match s.frames with
    | .proc ⟨inv, fields, dispatched, .pre⟩ :: frames =>
      some ({ s with frames := .proc ⟨inv, fields, dispatched, .main⟩ :: frames }.beforeProcMsg
        fields)
    | _ => none
  | .afterProcMsg res =>
    match s.frames with
    | .proc ⟨inv, fields, dispatched, .main⟩ :: frames =>
      some (({ s with frames }.afterProcMsg fields inv res).recordReturn dispatched (some inv) res)
    | _ => none

/-- The thread as a transition system. -/
def lts : LTS State Act := ⟨next⟩

end Deliver

end Message

end Swinx
