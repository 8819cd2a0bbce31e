import Mathlib
import Swinx.LTS.Basic
import Swinx.Message.Queue

/-!
# The message loop of the FreeRTOS port

`peekMsg` lets the timers that are due post their messages, and looks for a message that its filter
accepts.  If that is the message of a timer with a callback, it runs the callback, which may post
messages, set and kill timers and peek itself, and begins again.  `getMsg` and `waitMsg` are made of
`peekMsg` and `updateMsgQueue`.

The time is a natural number of which the tick counter shows the low 32 bits.

* `messages_of_orderly` — in orderly runs the message loop is sound.
* `killed_timer_fires` — a message of a timer that has been killed.
-/

namespace Swinx

namespace MsgLoop

open Message (WM_PAINT WM_TIMER)

def WM_MOUSEMOVE : ℕ := 0x0200

/-- What a `DWORD` can count to. -/
def wrap : ℕ := 4294967296

/-- The same for `uint64_t`. -/
def wrap64 : ℕ := 18446744073709551616

/-- A queued message. -/
structure Msg where
  hwnd : ℕ
  message : ℕ
  wParam : ℕ
  lParam : ℕ
  time : ℕ
  /-- The reply that goes with the message. -/
  msgReply : Option ℕ
  /-- Its place in the order of posting. -/
  seq : ℕ
  /-- A timer has posted it. -/
  fired : Bool
  deriving DecidableEq, Repr

structure TimerInfo where
  id : ℕ
  hWnd : ℕ
  elapse : ℕ
  /-- The tick when it was set or fired last. -/
  fireRemain : ℕ
  proc : ℕ
  /-- When it was set or has fired last. -/
  since : ℕ
  deriving DecidableEq, Repr

/-- Where a call of `peekMsg` is. -/
inductive Place
  | update
  | scan
  /-- In the callback of a timer. -/
  | callback
  deriving DecidableEq, Repr

/-- A call of `peekMsg`. -/
structure Frame where
  hWnd : ℕ
  wMsgFilterMin : ℕ
  wMsgFilterMax : ℕ
  /-- `PM_REMOVE` -/
  remove : Bool
  /-- Where the call is. -/
  place : Place
  /-- The callbacks that it has run. -/
  callbacks : ℕ
  /-- The messages with a callback that it left in the queue when it took the last one. -/
  left : ℕ
  /-- The messages with a callback that it has found at first. -/
  queued : ℕ
  deriving DecidableEq, Repr

/-- A timer has fired: the time since it was set or fired last, and its period. -/
structure Fire where
  /-- How long it was since the last one. -/
  passed : ℕ
  elapse : ℕ
  deriving DecidableEq, Repr

/-- A message was returned or its callback called; its timer was killed before. -/
structure Handed where
  msg : Msg
  /-- Was the timer killed? -/
  killed : Bool
  deriving DecidableEq, Repr

/-- The connection, and what has happened. -/
structure State where
  /-- `m_msgQueue` -/
  queue : List Msg
  /-- `m_lstTimer` -/
  timers : List TimerInfo
  nextTimerId : ℕ
  /-- `m_bBlockTimer` -/
  blockTimer : Bool
  clock : ℕ
  /-- The calls of `peekMsg`; the innermost one comes first. -/
  frames : List Frame
  /-- The number of the next message. -/
  seq : ℕ
  /-- `KillTimer` was called for the window and the number, and `SetTimer` was not called since. -/
  killed : ℕ → ℕ → Bool
  /-- All fires. -/
  fires : List Fire
  /-- The messages that were given out. -/
  handed : List Handed
  /-- The replies whose senders have been woken up, because the message was deleted. -/
  signalled : List ℕ
  /-- The replies with a result; no function of this port calls `SetResult`. -/
  answered : List ℕ

/-- At any time, before anything is posted. -/
def init (clock : ℕ) : State :=
  ⟨[], [], 1, false, clock, [], 0, fun _ _ => false, [], [], [], []⟩

/-! ### Posting -/

/-- `isSameTimerMsg` -/
def isSameTimerMsg (hWnd id proc : ℕ) (m : Msg) : Bool :=
  decide (m.message = WM_TIMER ∧ m.hwnd = hWnd ∧ m.wParam = id ∧ m.lParam = proc)

def hasQueuedTimerMsg (queue : List Msg) (hWnd id proc : ℕ) : Bool :=
  queue.any (isSameTimerMsg hWnd id proc)

def hasQueuedPaintMsg (queue : List Msg) (hWnd : ℕ) : Bool :=
  queue.any fun m => decide (m.message = WM_PAINT ∧ m.hwnd = hWnd)

/-- A queued move that a new one replaces. -/
def replaces (m queued : Msg) : Bool :=
  decide (m.message = WM_MOUSEMOVE ∧ queued.message = WM_MOUSEMOVE ∧ queued.hwnd = m.hwnd)

/-- `postMsg`: the queue, and the messages that are deleted. -/
def postMsg (queue : List Msg) (m : Msg) : List Msg × List Msg :=
  if m.message = WM_PAINT ∧ hasQueuedPaintMsg queue m.hwnd = true then (queue, [m])
  else
    let kept := queue.filter fun q => !replaces m q
    let moved := queue.filter (replaces m)
    if m.message = WM_TIMER ∧ hasQueuedTimerMsg kept m.hwnd m.wParam m.lParam = true then
      (kept, moved ++ [m])
    else (kept ++ [m], moved)

/-- The condition of `updateMsgQueue`, in 64 bits. -/
def TimerInfo.due (now : ℕ) (ti : TimerInfo) : Bool :=
  decide (ti.elapse ≤ (now + wrap64 - ti.fireRemain) % wrap64 ∨ now < ti.fireRemain)

/-- The first element with a property changes. -/
def modifyFirst (p : TimerInfo → Bool) (f : TimerInfo → TimerInfo) : List TimerInfo → List TimerInfo
  | [] => []
  | ti :: timers => if p ti then f ti :: timers else ti :: modifyFirst p f timers

namespace State

/-- `GetTickCount` -/
def ticks (s : State) : ℕ := s.clock % wrap

/-- A timer posts its message. -/
def fire (s : State) (ti : TimerInfo) : State :=
  { s with
    queue := s.queue ++ [⟨ti.hWnd, WM_TIMER, ti.id, ti.proc, s.ticks, none, s.seq, true⟩]
    seq := s.seq + 1
    fires := s.fires ++ [⟨s.clock - ti.since, ti.elapse⟩] }

/-- `updateMsgQueue` -/
def updateMsgQueue (s : State) : State :=
  if s.blockTimer then s
  else
    (s.timers.filter (TimerInfo.due s.ticks)).foldl fire
      { s with
        timers := s.timers.map fun ti =>
          if ti.due s.ticks then { ti with fireRemain := s.ticks, since := s.clock } else ti }

/-- The timer of the window and the number is no longer a killed one. -/
def unkill (s : State) (hWnd id : ℕ) : ℕ → ℕ → Bool :=
  fun h i => if h = hWnd ∧ i = id then false else s.killed h i

/-- `SetTimer` -/
def setTimer (s : State) (hWnd id uElapse proc : ℕ) : State :=
  let same (ti : TimerInfo) : Bool := decide (ti.hWnd = hWnd ∧ ti.id = id ∧ ti.proc = proc)
  if s.timers.any same then
    { s with
      timers := modifyFirst same
        (fun ti => { ti with elapse := uElapse, fireRemain := s.ticks, since := s.clock }) s.timers
      killed := s.unkill hWnd id }
  else
    let newId := if id = 0 then s.nextTimerId else id
    { s with
      timers := s.timers ++ [⟨newId, hWnd, uElapse, s.ticks, proc, s.clock⟩]
      nextTimerId := if id = 0 then s.nextTimerId + 1 else s.nextTimerId
      killed := s.unkill hWnd newId }

/-- `KillTimer` -/
def killTimer (s : State) (hWnd id : ℕ) : State :=
  { s with
    timers := s.timers.eraseP fun ti => decide (ti.hWnd = hWnd ∧ ti.id = id)
    killed := fun h i => if h = hWnd ∧ i = id then true else s.killed h i }

/-- A task posts a message; the messages that are deleted let go of their replies. -/
def post (s : State) (hWnd message wp lp : ℕ) (reply : Option ℕ) : State :=
  let posted := postMsg s.queue ⟨hWnd, message, wp, lp, s.ticks, reply, s.seq, false⟩
  { s with
    queue := posted.1
    seq := s.seq + 1
    signalled := s.signalled ++ posted.2.filterMap Msg.msgReply }

end State

/-- The message passes the filters. -/
def Frame.accepts (f : Frame) (m : Msg) : Bool :=
  if f.hWnd ≠ 0 ∧ f.hWnd ≠ m.hwnd ∧ m.hwnd ≠ 0 then false
  else if f.wMsgFilterMin = 0 ∧ f.wMsgFilterMax = 0 then true
  else if f.wMsgFilterMin ≤ f.wMsgFilterMax then
    decide (f.wMsgFilterMin ≤ m.message ∧ m.message ≤ f.wMsgFilterMax)
  else decide (¬ (f.wMsgFilterMax < m.message ∧ m.message < f.wMsgFilterMin))

/-- The message of a timer with a callback. -/
def Msg.isCallback (m : Msg) : Bool := decide (m.message = WM_TIMER ∧ m.lParam ≠ 0)

/-- The messages with a callback that pass the filters. -/
def Frame.callbackCount (f : Frame) (queue : List Msg) : ℕ :=
  queue.countP fun m => f.accepts m && m.isCallback

/-- The message that the call stops at, and the queue without it. -/
def Frame.find (f : Frame) (queue : List Msg) : Option (Msg × List Msg) :=
  match queue.dropWhile fun m => !f.accepts m with
  | [] => none
  | m :: rest => some (m, (queue.takeWhile fun m => !f.accepts m) ++ rest)

/-- The call takes a message out of the queue and runs its callback. -/
def Frame.called (f : Frame) (queue : List Msg) : Frame :=
  { f with
    place := .callback
    callbacks := f.callbacks + 1
    left := f.callbackCount queue - 1
    queued := if f.callbacks = 0 then f.callbackCount queue else f.queued }

namespace State

/-- The loop over the queue. -/
def scan (s : State) (f : Frame) (frames : List Frame) : State :=
  match f.find s.queue with
  | none => { s with frames }
  | some (m, rest) =>
    let handed := s.handed ++ [⟨m, s.killed m.hwnd m.wParam⟩]
    if m.isCallback then
      { s with
        queue := rest
        frames := f.called s.queue :: frames
        handed
        signalled := s.signalled ++ m.msgReply.toList }
    else if f.remove then
      { s with
        queue := rest
        frames
        handed
        signalled := s.signalled ++ m.msgReply.toList }
    else { s with frames, handed }

/-- The owner of the queue is not in `peekMsg`, or in a callback. -/
def outside (s : State) : Bool := s.frames.head?.all fun f => f.place = .callback

end State

/-- What happens. -/
inductive Act
  | tick (n : ℕ)
  /-- Any task: `postMsg` and `postMsg2`. -/
  | post (hWnd message wp lp : ℕ) (reply : Option ℕ)
  | setTimer (hWnd id uElapse proc : ℕ)
  | killTimer (hWnd id : ℕ)
  | setTimerBlock (bBlock : Bool)
  /-- `waitMsg` looks at the timers. -/
  | waitMsg
  | peekMsg (hWnd wMsgFilterMin wMsgFilterMax : ℕ) (remove : Bool)
  | updateMsgQueue
  | scan
  /-- The callback returns. -/
  | procReturns
  deriving DecidableEq, Repr

/-- One step. -/
def next (s : State) : Act → Option State
  | .tick n => some { s with clock := s.clock + n }
  | .post hWnd message wp lp reply => some (s.post hWnd message wp lp reply)
  | .setTimer hWnd id uElapse proc =>
    if s.outside then some (s.setTimer hWnd id uElapse proc) else none
  | .killTimer hWnd id => if s.outside then some (s.killTimer hWnd id) else none
  | .setTimerBlock bBlock => if s.outside then some { s with blockTimer := bBlock } else none
  | .waitMsg => if s.outside then some s.updateMsgQueue else none
  | .peekMsg hWnd wMsgFilterMin wMsgFilterMax remove =>
    if s.outside then
      some { s with
        frames := ⟨hWnd, wMsgFilterMin, wMsgFilterMax, remove, .update, 0, 0, 0⟩ :: s.frames }
    else none
  | .updateMsgQueue =>
    match s.frames with
    | f :: frames =>
      if f.place = .update then
        some { s.updateMsgQueue with frames := { f with place := .scan } :: frames }
      else none
    | [] => none
  | .scan =>
    match s.frames with
    | f :: frames => if f.place = .scan then some (s.scan f frames) else none
    | [] => none
  | .procReturns =>
    match s.frames with
    | f :: frames =>
      if f.place = .callback then some { s with frames := { f with place := .update } :: frames }
      else none
    | [] => none

/-- The program. -/
def lts : LTS State Act := ⟨next⟩

/-- The messages of timers in the queue, by timer. -/
def timerKeys (queue : List Msg) : List (ℕ × ℕ × ℕ) :=
  (queue.filter fun m => m.message = WM_TIMER).map fun m => (m.hwnd, m.wParam, m.lParam)

/-- **The message loop is right.** -/
structure Sound (s : State) : Prop where
  /-- A call runs no more callbacks than it has found queued, so that it returns. -/
  returns : ∀ f ∈ s.frames, f.callbacks ≤ f.queued
  /-- Each timer has at most one message in the queue. -/
  once : (timerKeys s.queue).Nodup
  /-- No timer fires early. -/
  due : ∀ f ∈ s.fires, f.elapse ≤ f.passed
  /-- No message and no callback comes from a timer that has been killed. -/
  killed : ∀ h ∈ s.handed, h.msg.fired = true → h.killed = false
  /-- Messages are in the order of posting. -/
  order : s.queue.Pairwise fun m m' => m.seq < m'.seq
  /-- The sender of a message goes on when the handler has given the result. -/
  replies : ∀ r ∈ s.signalled, r ∈ s.answered

/-- The timers fire: none of them because the tick counter has begun again, and none that has a
message in the queue. -/
def UpdateOrderly (s : State) : Prop :=
  s.blockTimer = false →
    (∀ ti ∈ s.timers, s.ticks < ti.fireRemain → ti.elapse ≤ s.clock - ti.since) ∧
    ((s.timers.filter (TimerInfo.due s.ticks)).map fun ti => (ti.hWnd, ti.id, ti.proc)).Nodup ∧
    ∀ ti ∈ s.timers, ti.due s.ticks = true →
      hasQueuedTimerMsg s.queue ti.hWnd ti.id ti.proc = false

/-- **The steps in which the loop is right.** -/
def Orderly (s : State) : Act → Prop
  | .waitMsg => UpdateOrderly s
  | .updateMsgQueue => UpdateOrderly s
  | .killTimer hWnd id =>
    (∀ m ∈ s.queue, m.fired = true → ¬ (m.hwnd = hWnd ∧ m.wParam = id)) ∧
    s.timers.countP (fun ti => decide (ti.hWnd = hWnd ∧ ti.id = id)) ≤ 1
  | .post hWnd message wp lp reply =>
    ∀ m ∈ (postMsg s.queue ⟨hWnd, message, wp, lp, s.ticks, reply, s.seq, false⟩).2,
      m.msgReply = none
  | .scan => ∀ f ∈ s.frames.head?,
    (0 < f.callbacks → f.callbackCount s.queue ≤ f.left) ∧
    ∀ m ∈ (f.find s.queue).map Prod.fst, m.isCallback = true ∨ f.remove = true →
      m.msgReply = none
  | _ => True

instance decidableUpdateOrderly (s : State) : Decidable (UpdateOrderly s) := by
  unfold UpdateOrderly
  infer_instance

instance decidableOrderly (s : State) (act : Act) : Decidable (Orderly s act) := by
  unfold Orderly
  split <;> infer_instance

/-- **The invariant of orderly runs.** -/
structure Inv (s : State) : Prop where
  frames : ∀ f ∈ s.frames, f.callbacks = 0 ∨ f.callbacks + f.left ≤ f.queued
  once : (timerKeys s.queue).Nodup
  due : ∀ f ∈ s.fires, f.elapse ≤ f.passed
  handed : ∀ h ∈ s.handed, h.msg.fired = true → h.killed = false
  order : s.queue.Pairwise fun m m' => m.seq < m'.seq
  below : ∀ m ∈ s.queue, m.seq < s.seq
  signalled : s.signalled = []
  /-- A timer that has been killed has no message, -/
  fired : ∀ m ∈ s.queue, m.fired = true → s.killed m.hwnd m.wParam = false
  /-- and is gone. -/
  alive : ∀ ti ∈ s.timers, s.killed ti.hWnd ti.id = false
  remain : ∀ ti ∈ s.timers, ti.fireRemain = ti.since % wrap ∧ ti.since ≤ s.clock

theorem inv_init (clock : ℕ) : Inv (init clock) where
  frames _ h := absurd h List.not_mem_nil
  once := List.nodup_nil
  due _ h := absurd h List.not_mem_nil
  handed _ h := absurd h List.not_mem_nil
  order := List.Pairwise.nil
  below _ h := absurd h List.not_mem_nil
  signalled := rfl
  fired _ h := absurd h List.not_mem_nil
  alive _ h := absurd h List.not_mem_nil
  remain _ h := absurd h List.not_mem_nil

variable {s s' : State}

theorem Inv.sound (hI : Inv s) : Sound s where
  returns f hf := by
    rcases hI.frames f hf with h | h
    · rw [h]
      exact Nat.zero_le _
    · exact (Nat.le_add_right _ _).trans h
  once := hI.once
  due := hI.due
  killed := hI.handed
  order := hI.order
  replies r hr := by
    rw [hI.signalled] at hr
    exact absurd hr List.not_mem_nil

theorem mem_timerKeys {queue : List Msg} {hWnd id proc : ℕ} :
    (hWnd, id, proc) ∈ timerKeys queue ↔ hasQueuedTimerMsg queue hWnd id proc = true := by
  unfold timerKeys hasQueuedTimerMsg isSameTimerMsg
  simp only [List.mem_map, List.mem_filter, decide_eq_true_eq, List.any_eq_true, Prod.mk.injEq,
    and_assoc]

theorem timerKeys_concat (queue : List Msg) (m : Msg) :
    timerKeys (queue ++ [m]) =
      timerKeys queue ++ if m.message = WM_TIMER then [(m.hwnd, m.wParam, m.lParam)] else [] := by
  unfold timerKeys
  rw [List.filter_append, List.map_append, List.filter_singleton]
  by_cases hm : m.message = WM_TIMER <;> simp [hm]

theorem timerKeys_sublist {queue queue' : List Msg} (h : queue'.Sublist queue) :
    (timerKeys queue').Sublist (timerKeys queue) := (h.filter _).map _

theorem Inv.restrict (hI : Inv s) {queue : List Msg} (h : queue.Sublist s.queue) :
    Inv { s with queue } :=
  { hI with
    once := hI.once.sublist (timerKeys_sublist h)
    order := hI.order.sublist h
    below := fun m hm => hI.below m (h.subset hm)
    fired := fun m hm => hI.fired m (h.subset hm) }

theorem Inv.push (hI : Inv s) {m : Msg} (hseq : m.seq = s.seq)
    (honce : m.message = WM_TIMER →
      hasQueuedTimerMsg s.queue m.hwnd m.wParam m.lParam = false)
    (hfired : m.fired = true → s.killed m.hwnd m.wParam = false) :
    Inv { s with
      queue := s.queue ++ [m]
      seq := s.seq + 1 } := by
  refine
    { hI with
      once := ?_
      order := ?_
      below := fun m' hm' => ?_
      fired := fun m' hm' => ?_ }
  · change (timerKeys (s.queue ++ [m])).Nodup
    rw [timerKeys_concat]
    by_cases hm : m.message = WM_TIMER
    · rw [if_pos hm]
      refine List.nodup_append.2 ⟨hI.once, List.nodup_singleton _, ?_⟩
      rintro key hkey _ hmem rfl
      rw [List.mem_singleton.1 hmem, mem_timerKeys, honce hm] at hkey
      cases hkey
    · rw [if_neg hm, List.append_nil]
      exact hI.once
  · refine List.pairwise_append.2 ⟨hI.order, List.pairwise_singleton _ _, fun m' hm' m'' hm'' => ?_⟩
    rw [List.mem_singleton.1 hm'', hseq]
    exact hI.below m' hm'
  · rcases List.mem_append.1 hm' with h | h
    · exact (hI.below m' h).trans (Nat.lt_succ_self _)
    · rw [List.mem_singleton.1 h, hseq]
      exact Nat.lt_succ_self _
  · rcases List.mem_append.1 hm' with h | h
    · exact hI.fired m' h
    · rw [List.mem_singleton.1 h]
      exact hfired

theorem Inv.skip (hI : Inv s) : Inv { s with seq := s.seq + 1 } :=
  { hI with below := fun m hm => (hI.below m hm).trans (Nat.lt_succ_self _) }

theorem filterMap_msgReply {deleted : List Msg} (h : ∀ m ∈ deleted, m.msgReply = none) :
    deleted.filterMap Msg.msgReply = [] := by
  rw [List.filterMap_eq_nil_iff]
  exact h

/-- What `postMsg` leaves of the queue, and whether it adds the message. -/
theorem postMsg_spec (queue : List Msg) (m : Msg) :
    ∃ kept, kept.Sublist queue ∧ ((postMsg queue m).1 = kept ∨
      (postMsg queue m).1 = kept ++ [m] ∧
        (m.message = WM_TIMER → hasQueuedTimerMsg kept m.hwnd m.wParam m.lParam = false)) := by
  unfold postMsg
  by_cases hpaint : m.message = WM_PAINT ∧ hasQueuedPaintMsg queue m.hwnd = true
  · rw [if_pos hpaint]
    exact ⟨queue, List.Sublist.refl _, .inl rfl⟩
  · rw [if_neg hpaint]
    refine ⟨queue.filter fun q => !replaces m q, List.filter_sublist, ?_⟩
    dsimp only
    split_ifs with htimer
    · exact .inl rfl
    · exact .inr ⟨rfl, fun hm => by simpa using fun h => htimer ⟨hm, h⟩⟩

theorem Inv.post (hI : Inv s) {hWnd message wp lp : ℕ} {reply : Option ℕ}
    (hO : ∀ m ∈ (postMsg s.queue ⟨hWnd, message, wp, lp, s.ticks, reply, s.seq, false⟩).2,
      m.msgReply = none) : Inv (s.post hWnd message wp lp reply) := by
  obtain ⟨kept, hsub, hqueue⟩ :=
    postMsg_spec s.queue ⟨hWnd, message, wp, lp, s.ticks, reply, s.seq, false⟩
  have hkept := hI.restrict hsub
  unfold State.post
  dsimp only
  rw [filterMap_msgReply hO, List.append_nil]
  rcases hqueue with hqueue | ⟨hqueue, honce⟩
  · rw [hqueue]
    exact hkept.skip
  · rw [hqueue]
    exact hkept.push rfl honce (fun h => nomatch h)

/-- A timer that fires without the tick counter having begun again is due. -/
theorem due_passed {ti : TimerInfo} (hremain : ti.fireRemain = ti.since % wrap)
    (hsince : ti.since ≤ s.clock) (hdue : ti.due s.ticks = true)
    (hwrap : s.ticks < ti.fireRemain → ti.elapse ≤ s.clock - ti.since) :
    ti.elapse ≤ s.clock - ti.since := by
  by_cases hlt : s.ticks < ti.fireRemain
  · exact hwrap hlt
  · have hle : ti.elapse ≤ (s.ticks + wrap64 - ti.fireRemain) % wrap64 := by
      rcases of_decide_eq_true hdue with h | h
      · exact h
      · exact absurd h hlt
    unfold State.ticks wrap at *
    unfold wrap64 at hle
    omega

theorem hasQueuedTimerMsg_fire (s : State) (ti : TimerInfo) (hWnd id proc : ℕ) :
    hasQueuedTimerMsg (s.fire ti).queue hWnd id proc =
      (hasQueuedTimerMsg s.queue hWnd id proc ||
        decide (ti.hWnd = hWnd ∧ ti.id = id ∧ ti.proc = proc)) := by
  simp [hasQueuedTimerMsg, State.fire, isSameTimerMsg]

theorem Inv.fire (hI : Inv s) {ti : TimerInfo}
    (honce : hasQueuedTimerMsg s.queue ti.hWnd ti.id ti.proc = false)
    (halive : s.killed ti.hWnd ti.id = false) (hdue : ti.elapse ≤ s.clock - ti.since) :
    Inv (s.fire ti) := by
  have hpush := hI.push (m := ⟨ti.hWnd, WM_TIMER, ti.id, ti.proc, s.ticks, none, s.seq, true⟩) rfl
    (fun _ => honce) (fun _ => halive)
  refine { hpush with due := fun f hf => ?_ }
  rcases List.mem_append.1 hf with h | h
  · exact hI.due f h
  · rw [List.mem_singleton.1 h]
    exact hdue

theorem Inv.fires {l : List TimerInfo} (hI : Inv s)
    (hkeys : (l.map fun ti => (ti.hWnd, ti.id, ti.proc)).Nodup)
    (honce : ∀ ti ∈ l, hasQueuedTimerMsg s.queue ti.hWnd ti.id ti.proc = false)
    (halive : ∀ ti ∈ l, s.killed ti.hWnd ti.id = false)
    (hdue : ∀ ti ∈ l, ti.elapse ≤ s.clock - ti.since) : Inv (l.foldl State.fire s) := by
  induction l generalizing s with
  | nil => exact hI
  | cons ti l ih =>
    rw [List.map_cons, List.nodup_cons] at hkeys
    rw [List.foldl_cons]
    refine ih (hI.fire (honce ti List.mem_cons_self) (halive ti List.mem_cons_self)
      (hdue ti List.mem_cons_self)) hkeys.2 (fun ti' h' => ?_)
      (fun ti' h' => halive ti' (List.mem_cons_of_mem _ h'))
      (fun ti' h' => hdue ti' (List.mem_cons_of_mem _ h'))
    rw [hasQueuedTimerMsg_fire, honce ti' (List.mem_cons_of_mem _ h'), Bool.false_or,
      decide_eq_false_iff_not]
    rintro ⟨h₁, h₂, h₃⟩
    exact hkeys.1 (List.mem_map.2 ⟨ti', h', by rw [h₁, h₂, h₃]⟩)

theorem Inv.updateMsgQueue (hI : Inv s) (hO : UpdateOrderly s) : Inv s.updateMsgQueue := by
  unfold State.updateMsgQueue
  by_cases hblock : s.blockTimer = true
  · rw [if_pos hblock]
    exact hI
  · rw [if_neg hblock]
    obtain ⟨hwrap, hkeys, honce⟩ := hO (by simpa using hblock)
    have hmem : ∀ ti ∈ s.timers.filter (TimerInfo.due s.ticks),
        ti ∈ s.timers ∧ ti.due s.ticks = true := fun ti hti => List.mem_filter.1 hti
    have hrearmed : Inv { s with
        timers := s.timers.map fun ti =>
          if ti.due s.ticks then { ti with fireRemain := s.ticks, since := s.clock } else ti } := by
      refine { hI with alive := fun ti hti => ?_, remain := fun ti hti => ?_ }
      · obtain ⟨ti', hti', rfl⟩ := List.mem_map.1 hti
        split_ifs <;> exact hI.alive ti' hti'
      · obtain ⟨ti', hti', rfl⟩ := List.mem_map.1 hti
        split_ifs
        · exact ⟨rfl, le_rfl⟩
        · exact hI.remain ti' hti'
    refine hrearmed.fires hkeys (fun ti hti => honce ti (hmem ti hti).1 (hmem ti hti).2)
      (fun ti hti => hI.alive ti (hmem ti hti).1) fun ti hti => ?_
    obtain ⟨hti, hdue⟩ := hmem ti hti
    obtain ⟨hremain, hsince⟩ := hI.remain ti hti
    exact due_passed hremain hsince hdue (hwrap ti hti)

theorem mem_modifyFirst {p : TimerInfo → Bool} {f : TimerInfo → TimerInfo} {l : List TimerInfo}
    {ti : TimerInfo} (h : ti ∈ modifyFirst p f l) :
    ti ∈ l ∨ ∃ ti' ∈ l, p ti' = true ∧ ti = f ti' := by
  induction l with
  | nil => exact .inl h
  | cons ti' l ih =>
    unfold modifyFirst at h
    split_ifs at h with hp
    · rcases List.mem_cons.1 h with rfl | h
      · exact .inr ⟨ti', List.mem_cons_self, hp, rfl⟩
      · exact .inl (List.mem_cons_of_mem _ h)
    · rcases List.mem_cons.1 h with rfl | h
      · exact .inl List.mem_cons_self
      · rcases ih h with hl | ⟨ti'', hl, hp', rfl⟩
        · exact .inl (List.mem_cons_of_mem _ hl)
        · exact .inr ⟨ti'', List.mem_cons_of_mem _ hl, hp', rfl⟩

theorem unkill_of_not {s : State} {hWnd id h i : ℕ} (hk : s.killed h i = false) :
    s.unkill hWnd id h i = false := by
  unfold State.unkill
  split_ifs
  · rfl
  · exact hk

theorem Inv.setTimer (hI : Inv s) (hWnd id uElapse proc : ℕ) :
    Inv (s.setTimer hWnd id uElapse proc) := by
  unfold State.setTimer
  dsimp only
  by_cases hany : (s.timers.any fun ti =>
      decide (ti.hWnd = hWnd ∧ ti.id = id ∧ ti.proc = proc)) = true
  · rw [if_pos hany]
    refine
      { hI with
        fired := fun m hm hf => unkill_of_not (hI.fired m hm hf)
        alive := fun ti hti => ?_
        remain := fun ti hti => ?_ }
    · rcases mem_modifyFirst hti with h | ⟨ti', h, _, rfl⟩
      · exact unkill_of_not (hI.alive ti h)
      · exact unkill_of_not (hI.alive ti' h)
    · rcases mem_modifyFirst hti with h | ⟨ti', _, _, rfl⟩
      · exact hI.remain ti h
      · exact ⟨rfl, le_rfl⟩
  · rw [if_neg hany]
    refine
      { hI with
        fired := fun m hm hf => unkill_of_not (hI.fired m hm hf)
        alive := fun ti hti => ?_
        remain := fun ti hti => ?_ }
    · rcases List.mem_append.1 hti with h | h
      · exact unkill_of_not (hI.alive ti h)
      · rw [List.mem_singleton.1 h]
        exact if_pos ⟨rfl, rfl⟩
    · rcases List.mem_append.1 hti with h | h
      · exact hI.remain ti h
      · rw [List.mem_singleton.1 h]
        exact ⟨rfl, le_rfl⟩

theorem not_of_mem_eraseP {p : TimerInfo → Bool} {l : List TimerInfo} (h : l.countP p ≤ 1)
    {ti : TimerInfo} (hti : ti ∈ l.eraseP p) : ¬ p ti = true := by
  induction l with
  | nil => exact absurd hti List.not_mem_nil
  | cons ti' l ih =>
    by_cases hp : p ti' = true
    · rw [List.countP_cons_of_pos hp] at h
      rw [List.eraseP_cons_of_pos hp] at hti
      exact List.countP_eq_zero.1 (by omega) ti hti
    · rw [List.countP_cons_of_neg hp] at h
      rw [List.eraseP_cons_of_neg hp] at hti
      rcases List.mem_cons.1 hti with rfl | hti
      · exact hp
      · exact ih h hti

theorem Inv.killTimer (hI : Inv s) {hWnd id : ℕ}
    (hfired : ∀ m ∈ s.queue, m.fired = true → ¬ (m.hwnd = hWnd ∧ m.wParam = id))
    (hone : s.timers.countP (fun ti => decide (ti.hWnd = hWnd ∧ ti.id = id)) ≤ 1) :
    Inv (s.killTimer hWnd id) :=
  { hI with
    fired := fun m hm hf => (if_neg (hfired m hm hf)).trans (hI.fired m hm hf)
    alive := fun ti hti =>
      (if_neg (by simpa using not_of_mem_eraseP hone hti)).trans
        (hI.alive ti (List.mem_of_mem_eraseP hti))
    remain := fun ti hti => hI.remain ti (List.mem_of_mem_eraseP hti) }

/-- The message that is found is in the queue, and passes the filters. -/
theorem find_spec {f : Frame} {queue rest : List Msg} {m : Msg}
    (h : f.find queue = some (m, rest)) :
    m ∈ queue ∧ f.accepts m = true ∧ rest.Sublist queue := by
  unfold Frame.find at h
  split at h
  · cases h
  · rename_i m' after hdrop
    cases h
    have hqueue : (queue.takeWhile fun m => !f.accepts m) ++ m :: after = queue := by
      rw [← hdrop]
      exact List.takeWhile_append_dropWhile
    refine ⟨?_, ?_, ?_⟩
    · rw [← hqueue]
      simp
    · have hhead := List.head?_dropWhile_not (fun m => !f.accepts m) queue
      rw [hdrop] at hhead
      simpa using hhead
    · conv_rhs => rw [← hqueue]
      exact (List.Sublist.refl _).append (List.sublist_cons_self _ _)

theorem Inv.hand (hI : Inv s) {m : Msg} (hm : m ∈ s.queue) :
    ∀ h ∈ s.handed ++ [⟨m, s.killed m.hwnd m.wParam⟩], h.msg.fired = true → h.killed = false := by
  intro h hh hfired
  rcases List.mem_append.1 hh with hh | hh
  · exact hI.handed h hh hfired
  · rw [List.mem_singleton.1 hh] at hfired ⊢
    exact hI.fired m hm hfired

theorem Inv.scan (hI : Inv s) {f : Frame} {frames : List Frame} (hframes : s.frames = f :: frames)
    (hleft : 0 < f.callbacks → f.callbackCount s.queue ≤ f.left)
    (hreply : ∀ m ∈ (f.find s.queue).map Prod.fst, m.isCallback = true ∨ f.remove = true →
      m.msgReply = none) : Inv (s.scan f frames) := by
  have hrest : ∀ f' ∈ frames, f'.callbacks = 0 ∨ f'.callbacks + f'.left ≤ f'.queued :=
    fun f' hf' => hI.frames f' (hframes ▸ List.mem_cons_of_mem _ hf')
  unfold State.scan
  cases hfind : f.find s.queue with
  | none => exact { hI with frames := hrest }
  | some found =>
    obtain ⟨m, rest⟩ := found
    obtain ⟨hm, haccepts, hsub⟩ := find_spec hfind
    rw [hfind] at hreply
    have hreply := hreply m rfl
    have hhand := hI.hand hm
    have hrestrict := hI.restrict hsub
    dsimp only
    by_cases hcallback : m.isCallback = true
    · rw [if_pos hcallback, hreply (.inl hcallback), Option.toList_none, List.append_nil]
      refine { hrestrict with handed := hhand, frames := fun f' hf' => ?_ }
      rcases List.mem_cons.1 hf' with rfl | hf'
      · right
        have hpos : 0 < f.callbackCount s.queue :=
          List.countP_pos_iff.2 ⟨m, hm, by rw [haccepts, hcallback]; rfl⟩
        have hf := hI.frames f (hframes ▸ List.mem_cons_self)
        unfold Frame.called
        dsimp only
        split_ifs with hzero
        · omega
        · have := hleft (Nat.pos_of_ne_zero hzero)
          omega
      · exact hrest f' hf'
    · rw [if_neg hcallback]
      by_cases hremove : f.remove = true
      · rw [if_pos hremove, hreply (.inr hremove), Option.toList_none, List.append_nil]
        exact { hrestrict with handed := hhand, frames := hrest }
      · rw [if_neg hremove]
        exact { hI with handed := hhand, frames := hrest }

/-- **Orderly steps keep the invariant.** -/
theorem Inv.next {act : Act} (hI : Inv s) (hO : Orderly s act) (h : next s act = some s') :
    Inv s' := by
  cases act with
  | tick n =>
    cases h
    exact { hI with
      remain := fun ti hti =>
        ⟨(hI.remain ti hti).1, (hI.remain ti hti).2.trans (Nat.le_add_right _ _)⟩ }
  | post hWnd message wp lp reply =>
    cases h
    exact hI.post hO
  | setTimer hWnd id uElapse proc =>
    simp only [MsgLoop.next] at h
    split_ifs at h
    cases h
    exact hI.setTimer hWnd id uElapse proc
  | killTimer hWnd id =>
    simp only [MsgLoop.next] at h
    split_ifs at h
    cases h
    exact hI.killTimer hO.1 hO.2
  | setTimerBlock bBlock =>
    simp only [MsgLoop.next] at h
    split_ifs at h
    cases h
    exact { hI with }
  | waitMsg =>
    simp only [MsgLoop.next] at h
    split_ifs at h
    cases h
    exact hI.updateMsgQueue hO
  | peekMsg hWnd wMsgFilterMin wMsgFilterMax remove =>
    simp only [MsgLoop.next] at h
    split_ifs at h
    cases h
    refine { hI with frames := fun f hf => ?_ }
    rcases List.mem_cons.1 hf with rfl | hf
    · exact .inl rfl
    · exact hI.frames f hf
  | updateMsgQueue =>
    simp only [MsgLoop.next] at h
    split at h
    · rename_i f frames hframes
      split_ifs at h
      cases h
      refine { hI.updateMsgQueue hO with frames := fun f' hf' => ?_ }
      rcases List.mem_cons.1 hf' with rfl | hf'
      · exact hI.frames f (hframes ▸ List.mem_cons_self)
      · exact hI.frames f' (hframes ▸ List.mem_cons_of_mem _ hf')
    · cases h
  | scan =>
    simp only [MsgLoop.next] at h
    split at h
    · rename_i f frames hframes
      split_ifs at h
      cases h
      obtain ⟨hleft, hreply⟩ := hO f (by rw [hframes]; rfl)
      exact hI.scan hframes hleft hreply
    · cases h
  | procReturns =>
    simp only [MsgLoop.next] at h
    split at h
    · rename_i f frames hframes
      split_ifs at h
      cases h
      refine { hI with frames := fun f' hf' => ?_ }
      rcases List.mem_cons.1 hf' with rfl | hf'
      · exact hI.frames f (hframes ▸ List.mem_cons_self)
      · exact hI.frames f' (hframes ▸ List.mem_cons_of_mem _ hf')
    · cases h

/-- **The message loop is right in orderly runs.** -/
theorem messages_of_orderly (clock : ℕ) (acts : List Act)
    (h : lts.AllSteps Orderly (init clock) acts) : lts.AllStates Sound (init clock) acts :=
  LTS.allStates_of_allSteps (I := Inv) (fun _ hI => hI.sound) (fun _ _ _ hI hO hn => hI.next hO hn)
    (inv_init clock) h

/-- A timer with a callback that posts a message, and `peekMsg` from it. -/
def sampleActs : List Act :=
  [.setTimer 0 0 50 9, .tick 50, .peekMsg 0 0 0 true, .updateMsgQueue, .scan, .setTimer 7 3 20 0,
    .post 7 0x0400 1 2 none, .procReturns, .updateMsgQueue, .scan, .tick 20, .killTimer 0 1,
    .waitMsg, .peekMsg 7 0 0 true, .updateMsgQueue, .scan, .killTimer 7 3]

theorem messages_sample : lts.AllStates Sound (init 1000) sampleActs :=
  messages_of_orderly 1000 sampleActs (by decide)

/-- **A timer that has been killed still has a message in the queue**, which `peekMsg` returns. -/
theorem killed_timer_fires :
    ∃ s, lts.run (init 0)
      [.setTimer 7 3 20 0, .tick 20, .waitMsg, .killTimer 7 3, .peekMsg 0 0 0 true, .updateMsgQueue,
        .scan] = some s ∧
      s.handed = [⟨⟨7, WM_TIMER, 3, 0, 20, none, 0, true⟩, true⟩] ∧ ¬ Sound s :=
  ⟨_, rfl, rfl, fun h => absurd (h.killed _ List.mem_cons_self rfl) (by decide)⟩

end MsgLoop

end Swinx
