import Mathlib.Data.List.Basic
import Mathlib.Data.List.Count
import Mathlib.Data.Int.Notation
import Mathlib.Logic.Function.Basic
import Swinx.LTS.Basic

/-!
# The scheduler of the waitable timers

One thread has the armed timers of the process.  It sleeps until the earliest due time, writes a
byte into the pipe of every timer that is due, arms the periodic ones again, and gives back the
references of the others when it has released the lock.  Other threads edit its map under the lock,
and notify it after that.

A timer with a name can have several handles; the map has an entry for a handle.  The clock counts
nanoseconds, and `W` is the time at which it was zero, from 1970.  A pipe has room for 65536 bytes.
A handle is not closed while a call uses it, and the process does not exit.

* `sched` — a step of `timer_sched_loop`; `callStep` : a step of a call; `next` : a step.
* `Sound` — signals are not early, none is missed, and what is touched exists.
* `Orderly` — due times are relative or past and do not overflow, a timer is armed by one handle at
  a time, and no pipe is full when its timer is due.
-/

namespace Swinx

namespace TimerSched

open Function (update)

/-- A handle, with the timer that it stands for. -/
structure Handle where
  timer : ℕ
  nRef : ℤ
  /-- Ghost: the handle itself is not closed. -/
  user : Bool
  deriving DecidableEq, Repr

/-- `TimerSchedEntry` -/
structure TimerSchedEntry where
  hTimer : ℕ
  due : ℤ
  periodMs : ℤ
  deriving DecidableEq, Repr

/-- Ghost: what the latest `SetWaitableTimer` has asked for, and how often it has signalled. -/
structure Arming where
  due : ℤ
  /-- 0 for once. -/
  period : ℤ
  signals : ℕ
  /-- When the next signal is due, with no periods that have passed. -/
  next : ℤ
  deriving DecidableEq, Repr

/-- An arming after a signal at `now`. -/
def Arming.signal (a : Arming) (now : ℤ) : Option Arming :=
  if 0 < a.period then
    some { a with
      signals := a.signals + 1
      next := a.next + ((now - a.next) / a.period + 1) * a.period }
  else none

/-- Ghost: a signal. -/
structure Signal where
  timer : ℕ
  now : ℤ
  arming : Option Arming
  deriving DecidableEq, Repr

/-- Where `timer_sched_loop` is. -/
inductive Sched
  /-- It has the lock. -/
  | top
  /-- In `wait`. -/
  | wait (notified : Bool)
  /-- In `wait_until`. -/
  | waitUntil (earliest : ℤ) (notified : Bool)
  /-- It has the lock, and will read the clock. -/
  | awake
  /-- It goes through the map, with the lock. -/
  | pass (now : ℤ) (todo firedOnce : List ℕ)
  /-- In `write` to the pipe of the first timer, with the lock. -/
  | blocked (now : ℤ) (h : ℕ) (todo firedOnce : List ℕ)
  /-- It closes the handles, without the lock. -/
  | closing (firedOnce : List ℕ)
  deriving DecidableEq, Repr

/-- The scheduler has the lock. -/
def Sched.locks : Sched → Bool
  | .wait _ | .waitUntil _ _ | .closing _ => false
  | _ => true

/-- A call, and what it will do next. -/
inductive Call
  /-- `SetWaitableTimer` before the lock. -/
  | set (hTimer : ℕ) (due lPeriod : ℤ) (asked : ℤ)
  | setNotify (hTimer : ℕ)
  /-- `CancelWaitableTimer` before the lock. -/
  | cancel (hTimer : ℕ)
  | cancelNotify (hTimer : ℕ) (wasScheduled : Bool)
  | cancelClose (hTimer : ℕ)
  | drain (hTimer : ℕ)
  deriving DecidableEq, Repr

namespace Call

def hTimer : Call → ℕ
  | .set h _ _ _ | .setNotify h | .cancel h | .cancelNotify h _ | .cancelClose h | .drain h => h

/-- The call will notify the scheduler. -/
def notifies : Call → Bool
  | .setNotify _ | .cancelNotify _ _ => true
  | _ => false

/-- The call will give back the scheduler's reference of the handle. -/
def closes (h : ℕ) : Call → Bool
  | .cancelNotify h' true => h' = h
  | .cancelClose h' => h' = h
  | _ => false

end Call

/-- The process. -/
structure State where
  clock : ℕ
  handles : ℕ → Option Handle
  nextHandle : ℕ
  nextTimer : ℕ
  /-- The bytes in the pipe of a timer. -/
  pipe : ℕ → ℕ
  /-- `s_timerSched`, in some order. -/
  s_timerSched : List TimerSchedEntry
  sched : Sched
  calls : List Call
  /-- Ghost: the armings that have not signalled, or are periodic. -/
  latest : ℕ → Option Arming
  /-- Ghost: the last signal. -/
  last : Option Signal

/-- The scheduler has been started. -/
def init : State where
  clock := 0
  handles _ := none
  nextHandle := 0
  nextTimer := 0
  pipe _ := 0
  s_timerSched := []
  sched := .top
  calls := []
  latest _ := none
  last := none

/-- A number of 64 bits with a sign. -/
def toInt64 (x : ℤ) : ℤ := x.bmod 18446744073709551616

/-- 1970 in units of 100 ns from 1601. -/
def unixEpoch : ℤ := 116444736000000000

/-- The deadline of `SetWaitableTimer`. -/
def dueOf (now q : ℤ) : ℤ :=
  if q < 0 then toInt64 (now + toInt64 (toInt64 (-q) * 100))
  else if 0 < q then
    let delta := q - unixEpoch
    if 0 < delta then toInt64 (now + toInt64 (delta * 100)) else now
  else now

/-- What is asked for: a relative time, or the instant of the clock at which it is `q`, if that is
not past. -/
def askedDue (W : ℕ) (now q : ℤ) : ℤ :=
  if q < 0 then now + -q * 100 else max now ((q - unixEpoch) * 100 - W)

/-- `due += period` as long as it is not after `now`. -/
def catchUp : ℕ → ℤ → ℤ → ℤ → ℤ
  | 0, due, _, _ => due
  | fuel + 1, due, period, now =>
    if due + period ≤ now then catchUp fuel (due + period) period now else due + period

/-- The loop for the missed periods. -/
def missed (due period now : ℤ) : ℤ := catchUp ((now - due).toNat + 1) due period now

/-- The earliest due time. -/
def earliest (due : ℤ) (entries : List TimerSchedEntry) : ℤ :=
  entries.foldl (fun earliest e => if e.due < earliest then e.due else earliest) due

namespace State

variable (s : State)

/-- `s_timerSched.find(h)` -/
def find (h : ℕ) : Option TimerSchedEntry := s.s_timerSched.find? fun e => e.hTimer = h

/-- `AddHandleRef` -/
def addHandleRef (h : ℕ) : State :=
  { s with
    handles := update s.handles h
      ((s.handles h).map fun hd => { hd with nRef := hd.nRef + 1 }) }

/-- `CloseHandle` -/
def closeHandle (h : ℕ) : State :=
  match s.handles h with
  | none => s
  | some hd =>
    { s with
      handles := update s.handles h
        (if hd.nRef - 1 = 0 then none else some { hd with nRef := hd.nRef - 1 }) }

/-- `notify_all` -/
def notify : State :=
  { s with sched := match s.sched with
      | .wait _ => .wait true
      | .waitUntil e _ => .waitUntil e true
      | sched => sched }

/-- The call goes on. -/
def goOn (c : Call) (cs : List Call) : State := { s with calls := cs ++ s.calls.erase c }

end State

/-- The lock-protected part of `SetWaitableTimer`. -/
def arm (s : State) (h : ℕ) (due lPeriod asked : ℤ) : State :=
  let s := match s.handles h with
    | none => s
    | some hd =>
      { s with
        latest := update s.latest hd.timer
          (some ⟨asked, if 0 < lPeriod then lPeriod * 1000000 else 0, 0, asked⟩) }
  match s.find h with
  | some _ =>
    { s with s_timerSched := s.s_timerSched.map fun e =>
        if e.hTimer = h then { e with due := due, periodMs := lPeriod } else e }
  | none =>
    let s := s.addHandleRef h
    { s with s_timerSched := s.s_timerSched ++ [⟨h, due, lPeriod⟩] }

/-- The lock-protected part of `CancelWaitableTimer`. -/
def disarm (s : State) (h : ℕ) : State :=
  let s := match s.handles h with
    | none => s
    | some hd => { s with latest := update s.latest hd.timer none }
  { s with s_timerSched := s.s_timerSched.filter fun e => e.hTimer ≠ h }

/-- A step of a call. -/
def callStep (s : State) (c : Call) : Option State :=
  match c with
  | .set h due lPeriod asked =>
    if s.sched.locks then none
    else some ((arm s h due lPeriod asked).goOn c [.setNotify h])
  | .setNotify _ => some (s.notify.goOn c [])
  | .cancel h =>
    if s.sched.locks then none
    else some ((disarm s h).goOn c [.cancelNotify h (s.find h).isSome])
  | .cancelNotify h wasScheduled =>
    some (s.notify.goOn c [if wasScheduled then .cancelClose h else .drain h])
  | .cancelClose h => some ((s.closeHandle h).goOn c [.drain h])
  | .drain h =>
    match s.handles h with
    | none => none
    | some hd =>
      -- `while (synHandle->readSignal())`
      if 0 < s.pipe hd.timer then
        some { s with pipe := update s.pipe hd.timer (s.pipe hd.timer - 1) }
      else some (s.goOn c [])

/-- `writeSignal` for the timer of the entry, which has room, and what follows. -/
def signal (s : State) (e : TimerSchedEntry) (timer : ℕ) (now : ℤ) (todo firedOnce : List ℕ) :
    State :=
  let s := { s with
    pipe := update s.pipe timer (s.pipe timer + 1)
    last := some ⟨timer, now, s.latest timer⟩
    latest := update s.latest timer ((s.latest timer).bind fun a => a.signal now) }
  if 0 < e.periodMs then
    { s with
      s_timerSched := s.s_timerSched.map fun e' => if e'.hTimer = e.hTimer then
        { e' with due := missed e.due (e.periodMs * 1000000) now } else e'
      sched := .pass now todo firedOnce }
  else
    { s with
      s_timerSched := s.s_timerSched.filter fun e' => e'.hTimer ≠ e.hTimer
      sched := .pass now todo (firedOnce ++ [e.hTimer]) }

/-- `write` blocks while this many bytes are in the pipe. -/
def pipeSize : ℕ := 65536

/-- A step of `timer_sched_loop`. -/
def sched (s : State) : Option State :=
  match s.sched with
  | .top =>
    match s.s_timerSched with
    | [] => some { s with sched := .wait false }
    | e :: es =>
      let first := earliest e.due es
      if s.clock < first then some { s with sched := .waitUntil first false }
      else some { s with sched := .awake }
  -- The waits also end without a reason.
  | .wait _ => some { s with sched := .top }
  | .waitUntil _ _ => some { s with sched := .awake }
  | .awake => some { s with sched := .pass s.clock (s.s_timerSched.map (·.hTimer)) [] }
  | .pass now (h :: todo) firedOnce =>
    match s.find h with
    | none => some { s with sched := .pass now todo firedOnce }
    | some e =>
      if e.due ≤ now then
        match s.handles h with
        | none => none
        | some hd =>
          if s.pipe hd.timer < pipeSize then some (signal s e hd.timer now todo firedOnce)
          else some { s with sched := .blocked now h todo firedOnce }
      else some { s with sched := .pass now todo firedOnce }
  | .blocked now h todo firedOnce =>
    match s.find h, s.handles h with
    | some e, some hd =>
      if s.pipe hd.timer < pipeSize then some (signal s e hd.timer now todo firedOnce) else none
    | _, _ => none
  | .pass _ [] firedOnce => some { s with sched := .closing firedOnce }
  | .closing (h :: hs) => some { s.closeHandle h with sched := .closing hs }
  | .closing [] => some { s with sched := .top }

/-- The steps of the process and its threads. -/
inductive Act
  /-- `CreateWaitableTimer` -/
  | create
  /-- `OpenWaitableTimer` of the timer of a handle. -/
  | openTimer (h : ℕ)
  | close (h : ℕ)
  | set (h : ℕ) (q lPeriod : ℤ)
  | cancel (h : ℕ)
  | call (c : Call)
  /-- A wait takes a byte. -/
  | read (timer : ℕ)
  | tick (d : ℕ)
  | sched
  deriving DecidableEq, Repr

/-- A handle that can be used. -/
def State.usable (s : State) (h : ℕ) : Option Handle := (s.handles h).filter fun hd => hd.user

/-- A handle is made. -/
def State.newHandle (s : State) (timer : ℕ) : State :=
  { s with
    handles := update s.handles s.nextHandle (some ⟨timer, 1, true⟩)
    nextHandle := s.nextHandle + 1 }

variable (W : ℕ)

/-- One step. -/
def next (s : State) : Act → Option State
  | .create => some { s.newHandle s.nextTimer with nextTimer := s.nextTimer + 1 }
  | .openTimer h => (s.usable h).map fun hd => s.newHandle hd.timer
  | .close h =>
    match s.usable h with
    | none => none
    | some hd =>
      if ∀ c ∈ s.calls, c.hTimer ≠ h then
        let s := { s with
          handles := update s.handles h (some { hd with user := false }) }
        some (s.closeHandle h)
      else none
  | .set h q lPeriod =>
    if s.usable h ≠ none ∧ (-9223372036854775808 ≤ q ∧ q < 9223372036854775808) ∧
        (-2147483648 ≤ lPeriod ∧ lPeriod < 2147483648) then
      some { s with calls := .set h (dueOf s.clock q) lPeriod (askedDue W s.clock q) :: s.calls }
    else none
  | .cancel h => if s.usable h ≠ none then some { s with calls := .cancel h :: s.calls } else none
  | .call c => if c ∈ s.calls then callStep s c else none
  | .read timer =>
    if 0 < s.pipe timer then
      some { s with pipe := update s.pipe timer (s.pipe timer - 1) }
    else none
  -- The clock does not overflow for 292 years.
  | .tick d =>
    if s.clock + d < 9200000000000000000 then some { s with clock := s.clock + d } else none
  | .sched => sched s

/-- The timers as a transition system. -/
def lts : LTS State Act := ⟨next W⟩

/-- **The timers signal when they should.** -/
structure Sound (s : State) : Prop where
  /-- A signal is for an arming that is not cancelled, and not before its time. -/
  onTime : ∀ f ∈ s.last, ∃ a, f.arming = some a ∧ a.due + a.signals * a.period ≤ f.now ∧
    (0 < a.signals → 0 < a.period)
  /-- After a step of the scheduler nothing is due. -/
  prompt : ∀ now firedOnce, s.sched = .pass now [] firedOnce →
    ∀ timer a, s.latest timer = some a → now < a.next
  /-- The scheduler does not stand still. -/
  unblocked : ∀ now h todo firedOnce, s.sched ≠ .blocked now h todo firedOnce
  /-- If it sleeps for ever nothing is armed, or it will be notified. -/
  asleep : s.sched = .wait false → (∀ c ∈ s.calls, c.notifies = false) →
    ∀ timer, s.latest timer = none
  /-- If it sleeps until a time nothing is due before, or it will be notified. -/
  sleeping : ∀ t, s.sched = .waitUntil t false → (∀ c ∈ s.calls, c.notifies = false) →
    ∀ timer a, s.latest timer = some a → t ≤ a.next
  /-- The timers of the map exist. -/
  alive : ∀ e ∈ s.s_timerSched, s.handles e.hTimer ≠ none
  /-- So do those whose references will be given back. -/
  owned : ∀ h, (∃ hs, s.sched = .closing hs ∧ h ∈ hs) ∨ (∃ c ∈ s.calls, c.closes h = true) →
    s.handles h ≠ none

/-- The timer of the handle has no entry of another handle. -/
def Alone (s : State) (h : ℕ) : Prop :=
  ∀ hd ∈ s.handles h, ∀ e ∈ s.s_timerSched, ∀ hd' ∈ s.handles e.hTimer,
    hd'.timer = hd.timer → e.hTimer = h

instance decidableAlone (s : State) (h : ℕ) : Decidable (Alone s h) :=
  inferInstanceAs (Decidable (∀ hd ∈ s.handles h, _))

/-- **The good steps.** -/
def Orderly (s : State) : Act → Prop
  /- The due time is relative, or before 1970, and is a number of 64 bits. -/
  | .set _ q _ => q ≤ unixEpoch ∧ (q < 0 → s.clock + -q * 100 < 9223372036854775808)
  | .call (.set h _ _ _) => Alone s h
  | .call (.cancel h) => Alone s h
  /- A pipe is not full. -/
  | .sched => ∀ h ∈ (match s.sched with | .pass _ todo _ => todo.head? | _ => none),
    ∀ hd ∈ s.handles h, s.pipe hd.timer < pipeSize
  | _ => True

instance decidableOrderly (s : State) (act : Act) : Decidable (Orderly s act) := by
  cases act with
  | call c => cases c <;> unfold Orderly <;> infer_instance
  | _ => unfold Orderly; infer_instance

end TimerSched

end Swinx
