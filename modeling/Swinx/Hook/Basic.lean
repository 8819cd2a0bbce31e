import Mathlib.Algebra.BigOperators.Group.Finset.Basic
import Mathlib.Logic.Function.Basic
import Swinx.LTS.Basic
import Swinx.Message.Counted

/-!
# Hooks

`HookMgr` has a list of hooks for each kind, the most recent one first.  `CallHook` takes the first
hook of a list and `CallNextHookEx` the one behind a given hook, each with a reference that
`call_hook` releases.  The procedure of a hook of another thread is called by a message with a
pointer to data on the stack of `call_hook`, which waits for the answer for two seconds.

Hooks are numbered in the order in which they are made; a handle is the number of its hook.  A
procedure is known by its hook.  The lists are used under a lock, so each use is one step.  The
calls of a thread may end in any order here, and any thread may dispatch a message: these are more
runs than the program has.  `GetClipboardOwner` may be no window of the process, so a message may
be sent in vain.

* `Frame` — a call of `call_hook`, with the call data on its stack.
* `State`, `Act`, `lts` — the hooks, the calls, and what the threads do.
* `Sound` — the lifetime of the hooks and the delivery to their procedures.
* `Orderly` — the steps that keep it so.
-/

namespace Swinx

namespace Hook

open Function (update)

/-- `WH_MAXHOOK`; `WH_MINHOOK` is 0. -/
def WH_MAXHOOK : ℕ := 7

/-- The fields of a hook that do not change. -/
structure Info where
  id : ℕ
  tid : ℕ
  deriving DecidableEq, Repr

/-- Where a `call_hook` is. -/
inductive Phase
  /-- It has a reference to its hook. -/
  | acquired
  /-- It calls the procedure. -/
  | running
  /-- The thread of the hook has no connection; the next hook, if there is one, is acquired. -/
  | skipped (next : Option ℕ)
  /-- It is in `SendMessageTimeout`. -/
  | sent
  /-- Its reference is not released yet. -/
  | ended
  | returned
  deriving DecidableEq, Repr

/-- Where the message `UM_CALLHOOK` of a `call_hook` is. -/
inductive Place
  | none
  | queued
  /-- A thread calls the procedure from the call data. -/
  | running (tid : ℕ)
  | finished
  | deleted
  deriving DecidableEq, Repr

/-- The message may still be used. -/
def Place.active : Place → Bool
  | .queued => true
  | .running _ => true
  | _ => false

/-- A `call_hook`. -/
structure Frame where
  /-- The `CallHook` that it belongs to. -/
  session : ℕ
  tid : ℕ
  hook : ℕ
  phase : Phase
  msg : Place
  /-- Its procedure has called `CallNextHookEx`. -/
  called : Bool
  /-- When the hook, or the next one, was acquired. -/
  born : ℕ
  deriving DecidableEq, Repr

/-- A start of a procedure. -/
structure Start where
  hook : ℕ
  session : ℕ
  /-- When the call acquired the hook. -/
  born : ℕ
  deriving DecidableEq, Repr

/-- The hooks and the calls. -/
structure State where
  /-- The number of hooks made. -/
  n : ℕ
  hooks : ℕ → Info
  obj : ℕ → Counted
  /-- `s_hooks` -/
  chain : ℕ → List ℕ
  /-- When a hook was taken out of its list. -/
  removedAt : ℕ → Option ℕ
  /-- The threads with a connection. -/
  connected : ℕ → Bool
  /-- The number of calls of `CallHook`, and the kinds of hooks they are for. -/
  sessions : ℕ
  sessionId : ℕ → ℕ
  frames : ℕ
  frame : ℕ → Frame
  starts : List Start
  /-- A procedure was started from the data of a call that has returned. -/
  stale : Bool
  now : ℕ

/-- The frame of a call that was not made. -/
def noFrame : Frame := ⟨0, 0, 0, .returned, .none, false, 0⟩

/-- Nothing has been done. -/
def init : State where
  n := 0
  hooks := fun _ => ⟨0, 0⟩
  obj := fun _ => .new
  chain := fun _ => []
  removedAt := fun _ => none
  connected := fun _ => false
  sessions := 0
  sessionId := fun _ => 0
  frames := 0
  frame := fun _ => noFrame
  starts := []
  stale := false
  now := 0

namespace State

/-- A field of the hook is read. -/
def touch (s : State) (h : ℕ) : State :=
  { s with obj := update s.obj h (s.obj h).touch }

/-- `hook_acquire` -/
def acquire (s : State) (h : ℕ) : State :=
  { s with obj := update s.obj h (s.obj h).addRef }

/-- `hook_release` -/
def release (s : State) (h : ℕ) : State :=
  { s with obj := update s.obj h (s.obj h).release }

def setFrame (s : State) (f : ℕ) (fr : Frame) : State :=
  { s with frame := update s.frame f fr }

def newFrame (s : State) (fr : Frame) : State :=
  { s.setFrame s.frames fr with frames := s.frames + 1 }

/-- The procedure of the frame is started. -/
def start (s : State) (fr : Frame) : State :=
  { s with starts := s.starts ++ [⟨fr.hook, fr.session, fr.born⟩] }

/-- `set_windows_hook`, with a procedure. -/
def setWindowsHook (s : State) (id tid : ℕ) : State :=
  if id ≥ WH_MAXHOOK then s
  else
    { s with
      n := s.n + 1
      hooks := update s.hooks s.n ⟨id, tid⟩
      obj := update s.obj s.n .new
      chain := update s.chain id (s.n :: s.chain id) }

/-- `unhook`: the handle is searched in all lists, and not used. -/
def unhook (s : State) (h : ℕ) : State :=
  match (List.range WH_MAXHOOK).find? fun id => h ∈ s.chain id with
  | none => s
  | some id =>
    { s with
      chain := update s.chain id ((s.chain id).erase h)
      removedAt := update s.removedAt h (some s.now) }.release h

/-- The hook behind `h` in the list, if `h` is in it. -/
def nextIn (hooks : List ℕ) (h : ℕ) : Option ℕ := (hooks.dropWhile (· ≠ h)).tail.head?

/-- A new `call_hook` for the hook, if there is one. -/
def callHook (s : State) (session tid : ℕ) (hook? : Option ℕ) : State :=
  match hook? with
  | none => s
  | some h => (s.acquire h).newFrame ⟨session, tid, h, .acquired, .none, false, s.now⟩

/-- `CallHook`, to `call_hook` -/
def callFirst (s : State) (tid id : ℕ) : State :=
  { s with
    sessions := s.sessions + 1
    sessionId := update s.sessionId s.sessions id }.callHook s.sessions tid
      (if id ≥ WH_MAXHOOK then none else (s.chain id).head?)

/-- `call_hook` reads its hook and calls the procedure, sends the message, or looks for the next
hook. -/
def enter (s : State) (f : ℕ) (delivered : Bool) : Option State :=
  let fr := s.frame f
  if f < s.frames ∧ fr.phase = .acquired then
    let s := s.touch fr.hook
    let info := s.hooks fr.hook
    if info.tid = fr.tid then some ((s.setFrame f { fr with phase := .running }).start fr)
    else if s.connected info.tid then
      some (s.setFrame f
        { fr with
          phase := .sent
          msg := if delivered then .queued else .none })
    else
      match nextIn (s.chain info.id) fr.hook with
      | none => some (s.setFrame f { fr with phase := .skipped none })
      | some h =>
        some ((s.acquire h).setFrame f
          { fr with
            phase := .skipped (some h)
            born := s.now })
  else none

/-- The hook of a thread without connection is released, and `call_hook` is called for the next
one. -/
def goOn (s : State) (f : ℕ) : Option State :=
  let fr := s.frame f
  match fr.phase with
  | .skipped none => some ((s.release fr.hook).setFrame f { fr with phase := .returned })
  | .skipped (some h) =>
    some ((s.release fr.hook).setFrame f
      { fr with
        hook := h
        phase := .acquired })
  | _ => none

/-- The procedure that `call_hook` called returns. -/
def procReturn (s : State) (f : ℕ) : Option State :=
  let fr := s.frame f
  if fr.phase = .running then some (s.setFrame f { fr with phase := .ended }) else none

/-- `DispatchMessage` of `UM_CALLHOOK`: the procedure is started from the call data. -/
def dispatch (s : State) (f tid : ℕ) : Option State :=
  let fr := s.frame f
  if fr.msg = .queued then
    some
      { (s.setFrame f { fr with msg := .running tid }).start fr with
        stale := s.stale || fr.phase ≠ .sent }
  else none

def msgReturn (s : State) (f : ℕ) : Option State :=
  let fr := s.frame f
  match fr.msg with
  | .running _ => some (s.setFrame f { fr with msg := .finished })
  | _ => none

/-- The message is deleted, with its window or the connection. -/
def deleteMsg (s : State) (f : ℕ) : Option State :=
  let fr := s.frame f
  if fr.msg = .queued then some (s.setFrame f { fr with msg := .deleted }) else none

/-- `SendMessageTimeout` returns: the message was answered, or the time is over. -/
def endSend (s : State) (f : ℕ) : Option State :=
  let fr := s.frame f
  if fr.phase = .sent then some (s.setFrame f { fr with phase := .ended }) else none

/-- The end of `call_hook` -/
def finish (s : State) (f : ℕ) : Option State :=
  let fr := s.frame f
  if fr.phase = .ended then
    some ((s.release fr.hook).setFrame f { fr with phase := .returned })
  else none

/-- The thread that runs the procedure of the frame. -/
def procThread (fr : Frame) : Option ℕ :=
  if fr.phase = .running then some fr.tid
  else
    match fr.msg with
    | .running tid => some tid
    | _ => none

/-- `CallNextHookEx`, by the procedure of a frame. -/
def callNext (s : State) (f hhk : ℕ) : Option State :=
  let fr := s.frame f
  match procThread fr with
  | none => none
  | some tid =>
    let s := (s.touch hhk).setFrame f { fr with called := true }
    some (s.callHook fr.session tid (nextIn (s.chain (s.hooks hhk).id) hhk))

end State

/-- What a thread does. -/
inductive Act
  | setWindowsHook (id tid : ℕ)
  | unhook (h : ℕ)
  /-- A connection is made or ends. -/
  | connect (tid : ℕ) (here : Bool)
  | callFirst (tid id : ℕ)
  | enter (f : ℕ) (delivered : Bool)
  | goOn (f : ℕ)
  | procReturn (f : ℕ)
  | dispatch (f tid : ℕ)
  | msgReturn (f : ℕ)
  | deleteMsg (f : ℕ)
  | endSend (f : ℕ)
  | finish (f : ℕ)
  | callNext (f hhk : ℕ)
  deriving DecidableEq, Repr

/-- A step at its time. -/
def step (s : State) : Act → Option State
  | .setWindowsHook id tid => some (s.setWindowsHook id tid)
  | .unhook h => some (s.unhook h)
  | .connect tid here => some { s with connected := update s.connected tid here }
  | .callFirst tid id => some (s.callFirst tid id)
  | .enter f delivered => s.enter f delivered
  | .goOn f => s.goOn f
  | .procReturn f => s.procReturn f
  | .dispatch f tid => s.dispatch f tid
  | .msgReturn f => s.msgReturn f
  | .deleteMsg f => s.deleteMsg f
  | .endSend f => s.endSend f
  | .finish f => s.finish f
  | .callNext f hhk => s.callNext f hhk

/-- The program. -/
def lts : LTS State Act := ⟨fun s act => step { s with now := s.now + 1 } act⟩

/-- The frame has a reference to the hook. -/
def Frame.Holds (fr : Frame) (h : ℕ) : Prop :=
  fr.hook = h ∧ fr.phase ≠ .returned ∨ fr.phase = .skipped (some h)

instance decidableHolds (fr : Frame) (h : ℕ) : Decidable (fr.Holds h) := by
  unfold Frame.Holds
  infer_instance

/-- The hook is in its list, or a call has a reference to it. -/
def State.InUse (s : State) (h : ℕ) : Prop :=
  h ∈ s.chain (s.hooks h).id ∨ ∃ f < s.frames, (s.frame f).Holds h

instance decidableInUse (s : State) (h : ℕ) : Decidable (s.InUse h) := by
  unfold State.InUse
  infer_instance

/-- **The lifetime of the hooks and the delivery to their procedures.** -/
structure Sound (s : State) : Prop where
  /-- A hook is freed once, as soon as it is not in use any more, and not used after that. -/
  lifetime : ∀ h < s.n, (s.obj h).misused = false ∧
    (s.obj h).frees = if s.InUse h then 0 else 1
  /-- A `CallHook` starts the procedures with the most recent first, and each at most once. -/
  order : s.starts.Pairwise fun a b => a.session = b.session → b.hook < a.hook
  /-- It starts the procedures of its kind. -/
  chain : ∀ a ∈ s.starts, (s.hooks a.hook).id = s.sessionId a.session
  /-- No procedure is started from the data of a call that has returned. -/
  data : s.stale = false
  /-- No call that acquires its hook after `UnhookWindowsHookEx` starts its procedure. -/
  removed : ∀ a ∈ s.starts, ∀ t ∈ s.removedAt a.hook, a.born < t

/-- **The steps that keep the hooks sound**: `SendMessageTimeout` does not give up while its message
is queued or the procedure is running, and a procedure calls `CallNextHookEx` with its own hook,
and once. -/
def Orderly (s : State) : Act → Prop
  | .endSend f => (s.frame f).msg.active = false
  | .callNext f hhk => hhk = (s.frame f).hook ∧ (s.frame f).called = false
  | _ => True

instance decidableOrderly (s : State) (act : Act) : Decidable (Orderly s act) := by
  unfold Orderly
  cases act <;> infer_instance

end Hook

end Swinx
