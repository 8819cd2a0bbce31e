import Mathlib.Data.Int.ModEq
import Swinx.LTS.Basic
import Swinx.Message.Queue

/-!
# The messages of a UI thread and who owns them

A message is a heap object.  It is in the queue, with a timer callback that runs, in `m_msgPeek`
with `m_bMsgNeedFree`, or on `m_msgStack`; without `m_bMsgNeedFree`, `m_msgPeek` points to a message
that is still in the queue.  The model runs one UI thread with every nesting of peeks in timer
callbacks and window procedures, while other threads post and windows go.

* `ownership_iff` — the runs in which everything is sound are the orderly ones.
* `freed_read_after_destroy` — `GetMsgPos` after the window of a peeked message is gone.
-/

namespace Swinx

namespace Message

namespace Ownership

/-- `WM_MOVE` -/
def WM_MOVE : ℕ := 0x0003

/-- `WM_MOUSEMOVE` -/
def WM_MOUSEMOVE : ℕ := 0x0200

/-- `UM_XDND_DRAG_OVER` -/
def UM_XDND_DRAG_OVER : ℕ := 0x0401

/-- `TimerInfo` -/
structure TimerInfo where
  hWnd : ℕ
  id : ℕ
  proc : ℕ
  deriving DecidableEq, Repr

/-- How a message has left the queue. -/
inductive Fate
  /-- A removing peek has returned it. -/
  | returned
  /-- It was a timer message and has been run. -/
  | ran
  /-- Its window is gone. -/
  | windowGone
  | timerKilled
  /-- A later event of the X server has replaced it. -/
  | merged
  deriving DecidableEq, Repr

/-- What the thread is in the middle of. -/
inductive Frame
  /-- `peekMsg` is about to start again. -/
  | peeking (f : Filter) (remove : Bool)
  /-- A timer callback that `peekMsg` has called. -/
  | callback (m : Msg) (f : Filter) (remove : Bool)
  /-- A window procedure. -/
  | proc (fields : Fields)
  deriving DecidableEq, Repr

/-- The message that a frame holds. -/
def Frame.message : Frame → Option Msg
  | callback m _ _ => some m
  | _ => none

/-- The connection of a UI thread. -/
structure State where
  /-- The windows that are destroyed or not registered. -/
  gone : ℕ → Bool
  /-- `m_lstTimer` -/
  timers : List TimerInfo
  /-- All messages so far. -/
  created : List Msg
  /-- The messages that come from `postMsg`. -/
  posted : List Msg
  /-- `m_msgQueue` -/
  queue : List Msg
  /-- `m_msgPeek` -/
  peek : Option Msg
  /-- `m_bMsgNeedFree` -/
  needFree : Bool
  /-- `m_msgStack`, its back first. -/
  stack : List Msg
  frames : List Frame
  /-- The messages that have been deleted. -/
  freed : List Msg
  fates : List (Msg × Fate)
  /-- A deleted message has been read. -/
  misread : Bool
  /-- The connection is destroyed. -/
  closed : Bool

/-- A new connection. -/
def init (gone : ℕ → Bool) : State :=
  ⟨gone, [], [], [], [], none, false, [], [], [], [], false, false⟩

/-- The loop of `peekMsg` deletes these messages. -/
def scanned (gone : ℕ → Bool) (f : Filter) : List Msg → List Msg
  | [] => []
  | m :: q =>
    if m.hwnd ≠ 0 ∧ gone m.hwnd = true then m :: scanned gone f q
    else if f.accepts m.toFields then []
    else scanned gone f q

/-- A timer with a callback. -/
def isCallback (m : Msg) : Bool := m.message = WM_TIMER && m.lParam ≠ 0

/-- The timer of a delayed repaint. -/
def isDelay (m : Msg) : Bool := m.message = WM_TIMER && m.wParam = TM_DELAY

/-- `GET_X_LPARAM` -/
def GET_X_LPARAM (lParam : ℕ) : ℤ := Int.bmod (lParam % 65536 : ℕ) 65536

/-- `GET_Y_LPARAM` -/
def GET_Y_LPARAM (lParam : ℕ) : ℤ := Int.bmod (lParam / 65536 % 65536 : ℕ) 65536

/-- `diff <= kMinPosDiff`, an `int16_t`; the code has `pt.x` in both places. -/
def near (x : ℤ) (lParam : ℕ) : Bool :=
  Int.bmod (|GET_X_LPARAM lParam - x| + |GET_Y_LPARAM lParam - x|) 65536 ≤ 5

/-- An event of the X server. -/
inductive Event
  /-- `XCB_CONFIGURE_NOTIFY` of a window, with the `WM_MOVE` and `WM_SIZE` that it needs. -/
  | configure (hwnd : ℕ) (news : List Fields)
  /-- `XdndPosition` -/
  | position (hwnd : ℕ) (news : Option Fields)
  /-- `XCB_MOTION_NOTIFY` in a window, at a place, with its new message. -/
  | motion (hwnd wParam : ℕ) (x : ℤ) (new : Fields)
  /-- Any other event. -/
  | other (news : Option Fields)
  deriving DecidableEq, Repr

namespace Event

/-- The messages of which the event drops the first one each. -/
def drops : Event → List (Msg → Bool)
  | configure hwnd _ =>
    [fun m => m.message = WM_MOVE && m.hwnd = hwnd, fun m => m.message = WM_SIZE && m.hwnd = hwnd]
  | position hwnd _ => [fun m => m.message = UM_XDND_DRAG_OVER && m.hwnd = hwnd]
  | motion hwnd wParam x _ =>
    [fun m => m.message = WM_MOUSEMOVE && m.hwnd = hwnd && m.wParam = wParam && near x m.lParam]
  | other _ => []

def news : Event → List Fields
  | configure _ news => news
  | position _ news => news.toList
  | motion _ _ _ new => [new]
  | other news => news.toList

end Event

namespace State

/-- A new message at the back of the queue. -/
def push (s : State) (fields : Fields) : State :=
  { s with
    created := s.created ++ [⟨fields, s.created.length⟩]
    queue := s.queue ++ [⟨fields, s.created.length⟩] }

/-- `postMsg` -/
def postMsg (s : State) (fields : Fields) : State :=
  { s.push fields with posted := s.posted ++ [⟨fields, s.created.length⟩] }

/-- Messages are taken out of the queue and deleted. -/
def discard (s : State) (p : Msg → Bool) (fate : Fate) : State :=
  { s with
    queue := s.queue.filter fun m => !p m
    freed := s.queue.filter p ++ s.freed
    fates := (s.queue.filter p).map (fun m => (m, fate)) ++ s.fates }

/-- The first message of a kind is deleted. -/
def dropFirst (s : State) (p : Msg → Bool) : State :=
  match s.queue.find? p with
  | none => s
  | some m =>
    { s with
      queue := s.queue.erase m
      freed := m :: s.freed
      fates := (m, .merged) :: s.fates }

/-- An event of the X server in `event2Msg`. -/
def event (s : State) (e : Event) : State := e.news.foldl push (e.drops.foldl dropFirst s)

/-- The message in `m_msgPeek` if a peek has removed it from the queue. -/
def removed (s : State) : Option Msg := if s.needFree then s.peek else none

/-- `delete m_msgPeek` -/
def dropPeek (s : State) : State :=
  match s.removed with
  | none => s
  | some m => { s with peek := none, needFree := false, freed := m :: s.freed }

/-- `KillTimer` -/
def killTimer (s : State) (hwnd id : ℕ) : State :=
  if s.timers.any fun t => t.hWnd = hwnd && t.id = id then
    { s with timers := s.timers.eraseP fun t => t.hWnd = hwnd && t.id = id }.discard
      (fun m => m.hwnd = hwnd && m.message = WM_TIMER && m.wParam = id) .timerKilled
  else s

/-- `SetTimer` -/
def setTimer (s : State) (hwnd id proc : ℕ) : State :=
  if hwnd ≠ 0 then
    if s.timers.any fun t => t.hWnd = hwnd && t.id = id then
      { s with
        timers := s.timers.map fun t => if t.hWnd = hwnd ∧ t.id = id then { t with proc } else t }
    else { s with timers := s.timers ++ [⟨hwnd, id, proc⟩] }
  else
    let newId := ((s.timers.filter (·.hWnd = 0)).map (·.id)).foldr max 0
    { s with timers := s.timers ++ [⟨0, newId + 1, proc⟩] }

/-- A timer is due in `event2Msg`. -/
def fire (s : State) (t : TimerInfo) : State := s.push ⟨t.hWnd, WM_TIMER, t.id, t.proc⟩

/-- The message that `peekMsg` comes to. -/
def found (s : State) (f : Filter) : Option Msg := (scan s.gone f s.queue).found

/-- The loop of `peekMsg`: the messages of windows that are gone are deleted. -/
def sweep (s : State) (f : Filter) : State :=
  let r := scan s.gone f s.queue
  { s with
    queue := r.passed ++ r.found.toList ++ r.rest
    freed := scanned s.gone f s.queue ++ s.freed
    fates := (scanned s.gone f s.queue).map (fun m => (m, .windowGone)) ++ s.fates }

/-- A message leaves the queue. -/
def take (s : State) (m : Msg) (fate : Fate) : State :=
  { s with queue := s.queue.erase m, fates := (m, fate) :: s.fates }

/-- `peekMsg`, after its `event2Msg` -/
def peekMsg (s : State) (f : Filter) (remove : Bool) : State :=
  match s.found f with
  | none => s.sweep f
  | some m =>
    let s := (s.sweep f).dropPeek
    if isCallback m then
      let s := s.take m .ran
      { s with frames := .callback m f remove :: s.frames }
    else if isDelay m then
      let s := (s.take m .ran).killTimer m.hwnd m.wParam
      { s with freed := m :: s.freed, frames := .peeking f remove :: s.frames }
    else if remove then { s.take m .returned with peek := some m, needFree := true }
    else { s with peek := some m, needFree := false }

/-- A message is read through `m_msgPeek`. -/
def reads (s : State) : Bool := s.peek.any fun m => m ∈ s.freed

/-- `GetMsgPos`, `GetMsgTime` -/
def getMsgPos (s : State) : State := { s with misread := s.misread || s.reads }

/-- `BeforeProcMsg` -/
def beforeProcMsg (s : State) (fields : Fields) : State :=
  match s.removed with
  | none => s
  | some m =>
    let s := s.getMsgPos
    if m.toFields = fields then
      { s with stack := m :: s.stack, peek := none, needFree := false }
    else s

/-- `AfterProcMsg` -/
def afterProcMsg (s : State) (fields : Fields) : State :=
  match s.stack with
  | [] => s
  | m :: stack =>
    if s.needFree then s
    else if m.toFields = fields then { s with stack, freed := m :: s.freed }
    else s

/-- The destructor of the connection. -/
def close (s : State) : State :=
  let s₁ := { s with queue := [], freed := s.queue ++ s.freed }.dropPeek
  { s₁ with stack := [], freed := s₁.stack ++ s₁.freed, closed := true }

/-- The thread is inside `peekMsg`. -/
def busy (s : State) : Bool :=
  match s.frames with
  | .peeking _ _ :: _ => true
  | _ => false

end State

/-- The steps; `post` and `setGone` are also those of other threads. -/
inductive Act
  | post (fields : Fields)
  | setGone (hwnd : ℕ) (b : Bool)
  | event (e : Event)
  | fire (t : TimerInfo)
  | peekMsg (f : Filter) (remove : Bool)
  /-- `peekMsg` calls itself. -/
  | peekAgain
  /-- The timer callback returns. -/
  | callbackDone
  /-- A window procedure is called, by `DispatchMessage` or directly. -/
  | callProc (fields : Fields)
  | procDone
  | setTimer (hwnd id proc : ℕ)
  | killTimer (hwnd id : ℕ)
  | killWindowTimer (hwnd : ℕ)
  | getMsgPos
  | close
  deriving DecidableEq, Repr

/-- A step of the thread outside `peekMsg`. -/
def State.whenFree (s s' : State) : Option State := if s.busy then none else some s'

/-- One step. -/
def next (s : State) (a : Act) : Option State :=
  if s.closed then none
  else
    match a with
    | .post fields => some (s.postMsg fields)
    | .setGone hwnd b => some { s with gone := Function.update s.gone hwnd b }
    | .event e => some (s.event e)
    | .fire t => if t ∈ s.timers then some (s.fire t) else none
    | .peekMsg f remove => s.whenFree (s.peekMsg f remove)
    | .peekAgain =>
      match s.frames with
      | .peeking f remove :: frames => some ({ s with frames }.peekMsg f remove)
      | _ => none
    | .callbackDone =>
      match s.frames with
      | .callback m f remove :: frames =>
        some { s with freed := m :: s.freed, frames := .peeking f remove :: frames }
      | _ => none
    | .callProc fields =>
      s.whenFree { s.beforeProcMsg fields with frames := .proc fields :: s.frames }
    | .procDone =>
      match s.frames with
      | .proc fields :: frames => some ({ s with frames }.afterProcMsg fields)
      | _ => none
    | .setTimer hwnd id proc => s.whenFree (s.setTimer hwnd id proc)
    | .killTimer hwnd id => s.whenFree (s.killTimer hwnd id)
    | .killWindowTimer hwnd =>
      s.whenFree { s with timers := s.timers.filter fun t => t.hWnd ≠ hwnd }
    | .getMsgPos => s.whenFree s.getMsgPos
    | .close => if s.frames = [] then some s.close else none

/-- The thread as a transition system. -/
def lts : LTS State Act := ⟨next⟩

/-- `peekMsg` returns this message. -/
def State.Returns (s : State) (f : Filter) (m : Msg) : Prop :=
  s.found f = some m ∧ isCallback m = false ∧ isDelay m = false

/-- The messages that have left the queue and still exist. -/
def State.held (s : State) : List Msg :=
  s.removed.toList ++ s.stack ++ s.frames.filterMap Frame.message

/-- The messages that the thread owns. -/
def State.owned (s : State) : List Msg := s.queue ++ s.held

/-- **The messages are as they should be.** -/
structure Sound (s : State) : Prop where
  /-- A message is in the queue, or it has left it in one way. -/
  placed : s.closed = false → ∀ m ∈ s.created,
    s.queue.count m + (s.fates.map Prod.fst).count m = 1
  /-- A posted message is not dropped. -/
  kept : ∀ m ∈ s.posted, (m, .merged) ∉ s.fates
  /-- A message has one owner, or it has been deleted once. -/
  freed : ∀ m ∈ s.created, s.owned.count m + s.freed.count m = 1
  closed : s.closed = true → ∀ m ∈ s.created, s.freed.count m = 1
  read : s.misread = false
  /-- A peek returns the oldest message that its filter accepts. -/
  oldest : ∀ f m, s.Returns f m → f.accepts m.toFields = true ∧
    ∃ pre post, s.queue = pre ++ m :: post ∧
      ∀ m' ∈ pre, f.accepts m'.toFields = true → m'.hwnd ≠ 0 ∧ s.gone m'.hwnd = true
  /-- A peek that does not remove leaves the message, and returns it again. -/
  again : ∀ f m, s.Returns f m → (s.peekMsg f false).peek = some m ∧
    m ∈ (s.peekMsg f false).queue ∧ (s.peekMsg f false).Returns f m
  /-- A removing peek takes the message out of the queue. -/
  taken : ∀ f m, s.Returns f m → (s.peekMsg f true).peek = some m ∧
    m ∉ (s.peekMsg f true).queue

/-- The events that replace messages replace no posted one. -/
def State.Keeps : State → List (Msg → Bool) → Prop
  | _, [] => True
  | s, p :: ps => (∀ m ∈ s.queue.find? p, m ∉ s.posted) ∧ (s.dropFirst p).Keeps ps

/-- **What a step must not do**: read `m_msgPeek` when its message is neither in the queue nor taken
out of it by a peek, and drop a posted message for an event. -/
def Orderly (s : State) : Act → Prop
  | .getMsgPos => s.needFree = false → ∀ m ∈ s.peek, m ∈ s.queue
  | .event e => s.Keeps e.drops
  | _ => True

/-! ### The loop over the queue -/

section Scan

variable {gone : ℕ → Bool} {f : Filter}

theorem count_scan (gone : ℕ → Bool) (f : Filter) (q : List Msg) (a : Msg) :
    q.count a = (scanned gone f q).count a + ((scan gone f q).passed ++
      (scan gone f q).found.toList ++ (scan gone f q).rest).count a := by
  induction q with
  | nil => rfl
  | cons m q ih =>
    unfold scan scanned
    split_ifs with hgone hacc
    · rw [List.count_cons, ih, List.count_cons]
      omega
    · simp
    · simp only [List.cons_append, List.count_cons] at ih ⊢
      omega

/-- What the loop stops at is behind messages that it does not want. -/
theorem scan_split {q : List Msg} {m : Msg} (h : (scan gone f q).found = some m) :
    ∃ pre post, q = pre ++ m :: post ∧
      ∀ m' ∈ pre, f.accepts m'.toFields = true → m'.hwnd ≠ 0 ∧ gone m'.hwnd = true := by
  induction q with
  | nil => cases h
  | cons a q ih =>
    unfold scan at h
    split_ifs at h with hgone hacc
    · obtain ⟨pre, post, rfl, hpre⟩ := ih h
      exact ⟨a :: pre, post, rfl, List.forall_mem_cons.2 ⟨fun _ => hgone, hpre⟩⟩
    · obtain rfl := Option.some.inj h
      exact ⟨[], q, rfl, by simp⟩
    · obtain ⟨pre, post, rfl, hpre⟩ := ih h
      exact ⟨a :: pre, post, rfl,
        List.forall_mem_cons.2 ⟨fun h' => absurd h' hacc, hpre⟩⟩

theorem scan_again {q : List Msg} {m : Msg} (h : (scan gone f q).found = some m) :
    (scan gone f ((scan gone f q).passed ++ (scan gone f q).found.toList ++
      (scan gone f q).rest)).found = some m := by
  induction q with
  | nil => cases h
  | cons a q ih =>
    unfold scan at h
    by_cases hgone : a.hwnd ≠ 0 ∧ gone a.hwnd = true
    · rw [if_pos hgone] at h
      have hscan : scan gone f (a :: q) = scan gone f q := by rw [scan, if_pos hgone]
      rw [hscan]
      exact ih h
    · rw [if_neg hgone] at h
      by_cases hacc : f.accepts a.toFields = true
      · rw [if_pos hacc] at h
        have hscan : scan gone f (a :: q) = ⟨[], some a, q⟩ := by
          rw [scan, if_neg hgone, if_pos hacc]
        rw [hscan]
        simpa [scan, hgone, hacc] using h
      · rw [if_neg hacc] at h
        have hscan : scan gone f (a :: q) =
            { scan gone f q with passed := a :: (scan gone f q).passed } := by
          rw [scan, if_neg hgone, if_neg hacc]
        rw [hscan]
        simp only [List.cons_append]
        rw [scan, if_neg hgone, if_neg hacc]
        exact ih h

end Scan

/-! ### The ledger -/

/-- **The ledger**: a message is in the queue or has left it in one way, and it has one owner or has
been deleted; the messages `hand` are on their way from the queue to an owner. -/
structure Ledger (hand : List Msg) (s : State) : Prop where
  ids : s.created.map Msg.id = List.range s.created.length
  placed : s.closed = false → ∀ m,
    s.queue.count m + (s.fates.map Prod.fst).count m = s.created.count m
  freed : ∀ m, s.owned.count m + hand.count m + s.freed.count m = s.created.count m

namespace Ledger

variable {s : State} {hand : List Msg}

theorem nodup (h : Ledger hand s) : s.created.Nodup :=
  .of_map Msg.id (by rw [h.ids]; exact List.nodup_range)

theorem count_le (h : Ledger hand s) (m : Msg) : s.created.count m ≤ 1 :=
  List.nodup_iff_count_le_one.1 h.nodup m

theorem new_notMem (h : Ledger hand s) (fields : Fields) :
    (⟨fields, s.created.length⟩ : Msg) ∉ s.created := by
  intro hm
  have hid := List.mem_map_of_mem (f := Msg.id) hm
  rw [h.ids, List.mem_range] at hid
  exact Nat.lt_irrefl _ hid

theorem init (gone : ℕ → Bool) : Ledger [] (init gone) :=
  ⟨rfl, fun _ _ => rfl, fun _ => rfl⟩

theorem notMem_freed (h : Ledger hand s) {m : Msg} (hm : m ∈ s.owned) : m ∉ s.freed := by
  intro hf
  have h₁ := List.count_pos_iff.2 hm
  have h₂ := List.count_pos_iff.2 hf
  have := h.freed m
  have := h.count_le m
  omega

theorem push (h : Ledger hand s) (fields : Fields) : Ledger hand (s.push fields) where
  ids := by
    simp only [State.push, List.map_append, h.ids, List.length_append, List.map_singleton,
      List.length_singleton, List.range_succ]
  placed hc m := by
    have := h.placed hc m
    simp only [State.push, List.count_append]
    omega
  freed m := by
    have hheld : (s.push fields).held = s.held := rfl
    have := h.freed m
    rw [State.owned, hheld]
    simp only [State.owned, State.push, List.count_append] at this ⊢
    omega

theorem discard (h : Ledger hand s) (p : Msg → Bool) (fate : Fate) :
    Ledger hand (s.discard p fate) := by
  have hsplit : ∀ m, (s.queue.filter p).count m + (s.queue.filter fun m => !p m).count m =
      s.queue.count m := fun m => by
    rw [← List.count_append, (List.filter_append_perm p s.queue).count_eq]
  refine ⟨h.ids, fun hc m => ?_, fun m => ?_⟩
  · have := h.placed hc m
    have := hsplit m
    simp only [State.discard, List.map_append, List.map_map, Function.comp_def, List.map_id',
      List.count_append] at *
    omega
  · have hheld : (s.discard p fate).held = s.held := rfl
    have := h.freed m
    have := hsplit m
    simp only [State.owned, hheld, State.discard, List.count_append] at *
    omega

theorem dropFirst (h : Ledger hand s) (p : Msg → Bool) : Ledger hand (s.dropFirst p) := by
  unfold State.dropFirst
  cases hfind : s.queue.find? p with
  | none => exact h
  | some m =>
    have herase : ∀ a, s.queue.count a = (m :: s.queue.erase m).count a :=
      (List.perm_cons_erase (List.mem_of_find?_eq_some hfind)).count_eq
    refine ⟨h.ids, fun hc a => ?_, fun a => ?_⟩
    · have := h.placed hc a
      have := herase a
      simp only [List.map_cons, List.count_cons] at *
      omega
    · have := h.freed a
      have := herase a
      simp only [State.owned, State.held, State.removed, List.count_append, List.count_cons] at *
      omega

theorem event (h : Ledger hand s) (e : Event) : Ledger hand (s.event e) := by
  have hdrops : ∀ (l : List (Msg → Bool)) {s : State}, Ledger hand s →
      Ledger hand (l.foldl State.dropFirst s) := by
    intro l
    induction l with
    | nil => exact fun h => h
    | cons p l ih => exact fun h => ih (h.dropFirst p)
  have hnews : ∀ (l : List Fields) {s : State}, Ledger hand s →
      Ledger hand (l.foldl State.push s) := by
    intro l
    induction l with
    | nil => exact fun h => h
    | cons p l ih => exact fun h => ih (h.push p)
  exact hnews _ (hdrops _ h)

theorem dropPeek (h : Ledger hand s) : Ledger hand s.dropPeek := by
  unfold State.dropPeek
  cases hrem : s.removed with
  | none => exact h
  | some m =>
    refine ⟨h.ids, h.placed, fun a => ?_⟩
    have := h.freed a
    have hnone : ({ s with peek := none, needFree := false, freed := m :: s.freed } :
      State).removed = none := rfl
    simp only [State.owned, State.held, hrem, hnone, Option.toList_some, Option.toList_none,
      List.count_append, List.count_cons, List.count_nil] at *
    omega

theorem killTimer (h : Ledger hand s) (hwnd id : ℕ) : Ledger hand (s.killTimer hwnd id) := by
  unfold State.killTimer
  split_ifs
  · refine discard ?_ _ _
    exact ⟨h.ids, h.placed, h.freed⟩
  · exact h

theorem sweep (h : Ledger hand s) (f : Filter) : Ledger hand (s.sweep f) := by
  refine ⟨h.ids, fun hc m => ?_, fun m => ?_⟩
  · have := h.placed hc m
    have := count_scan s.gone f s.queue m
    simp only [State.sweep, List.map_append, List.map_map, Function.comp_def, List.map_id',
      List.count_append] at *
    omega
  · have hheld : (s.sweep f).held = s.held := rfl
    have := h.freed m
    have := count_scan s.gone f s.queue m
    simp only [State.owned, hheld, State.sweep, List.count_append] at *
    omega

theorem take (h : Ledger hand s) {m : Msg} (hm : m ∈ s.queue) (fate : Fate) :
    Ledger (m :: hand) (s.take m fate) := by
  have herase : ∀ a, s.queue.count a = (m :: s.queue.erase m).count a :=
    (List.perm_cons_erase hm).count_eq
  refine ⟨h.ids, fun hc a => ?_, fun a => ?_⟩
  · have := h.placed hc a
    have := herase a
    simp only [State.take, List.map_cons, List.count_cons] at *
    omega
  · have hheld : (s.take m fate).held = s.held := rfl
    have := h.freed a
    have := herase a
    simp only [State.owned, hheld, State.take, List.count_append, List.count_cons] at *
    omega

theorem free {m : Msg} (h : Ledger (m :: hand) s) :
    Ledger hand { s with freed := m :: s.freed } := by
  refine ⟨h.ids, h.placed, fun a => ?_⟩
  have hheld : ({ s with freed := m :: s.freed } : State).held = s.held := rfl
  have := h.freed a
  rw [State.owned, hheld]
  simp only [State.owned, List.count_append, List.count_cons] at this ⊢
  omega

theorem call {m : Msg} (h : Ledger (m :: hand) s) (f : Filter) (remove : Bool) :
    Ledger hand { s with frames := .callback m f remove :: s.frames } := by
  refine ⟨h.ids, h.placed, fun a => ?_⟩
  have hrem : ({ s with frames := .callback m f remove :: s.frames } : State).removed =
    s.removed := rfl
  have := h.freed a
  simp only [State.owned, State.held, hrem, List.filterMap_cons, Frame.message,
    List.count_append, List.count_cons] at this ⊢
  omega

theorem give {m : Msg} (h : Ledger (m :: hand) s) (hrem : s.removed = none) :
    Ledger hand { s with peek := some m, needFree := true } := by
  refine ⟨h.ids, h.placed, fun a => ?_⟩
  have hsome : ({ s with peek := some m, needFree := true } : State).removed = some m := rfl
  have := h.freed a
  simp only [State.owned, State.held, hrem, hsome, Option.toList_none, Option.toList_some,
    List.count_append, List.count_cons, List.count_nil] at this ⊢
  omega

theorem frames {frames : List Frame} (h : Ledger hand s)
    (hframes : frames.filterMap Frame.message = s.frames.filterMap Frame.message) :
    Ledger hand { s with frames } := by
  refine ⟨h.ids, h.placed, fun a => ?_⟩
  have hheld : ({ s with frames } : State).held = s.held := by
    simp only [State.held, hframes]
    rfl
  have := h.freed a
  rwa [State.owned, hheld]

theorem aim {t : State} {m : Msg} (h : Ledger hand s) (hrem : s.removed = none)
    (ht : t = { s with peek := some m, needFree := false }) : Ledger hand t := by
  subst ht
  refine ⟨h.ids, h.placed, fun a => ?_⟩
  have hheld : ({ s with peek := some m, needFree := false } : State).held = s.held := by
    rw [State.held, State.held, hrem]
    rfl
  have := h.freed a
  rwa [State.owned, hheld]

@[simp] theorem dropPeek_queue (s : State) : s.dropPeek.queue = s.queue := by
  unfold State.dropPeek
  split <;> rfl

@[simp] theorem dropPeek_stack (s : State) : s.dropPeek.stack = s.stack := by
  unfold State.dropPeek
  split <;> rfl

@[simp] theorem dropPeek_frames (s : State) : s.dropPeek.frames = s.frames := by
  unfold State.dropPeek
  split <;> rfl

@[simp] theorem dropPeek_created (s : State) : s.dropPeek.created = s.created := by
  unfold State.dropPeek
  split <;> rfl

@[simp] theorem dropPeek_freed (s : State) :
    s.dropPeek.freed = s.removed.toList ++ s.freed := by
  unfold State.dropPeek
  cases hrem : s.removed <;> rfl

theorem removed_dropPeek (s : State) : s.dropPeek.removed = none := by
  unfold State.dropPeek
  cases hrem : s.removed with
  | none => exact hrem
  | some m => rfl

theorem mem_sweep {f : Filter} {m : Msg} (h : s.found f = some m) :
    m ∈ (s.sweep f).dropPeek.queue := by
  have hm : m ∈ (s.sweep f).queue := by
    unfold State.found at h
    simp [State.sweep, h]
  rwa [dropPeek_queue]

theorem peekMsg (h : Ledger [] s) (f : Filter) (remove : Bool) :
    Ledger [] (s.peekMsg f remove) := by
  unfold State.peekMsg
  cases hfound : s.found f with
  | none => exact h.sweep f
  | some m =>
    have h₁ := (h.sweep f).dropPeek
    have htake := fun fate => h₁.take (mem_sweep hfound) fate
    dsimp only
    split_ifs
    · exact (htake .ran).call f remove
    · exact (((htake .ran).killTimer _ _).free).frames rfl
    · exact (htake .returned).give (removed_dropPeek _)
    · exact h₁.aim (removed_dropPeek _) rfl

theorem hangUp {m : Msg} {f : Filter} {remove : Bool} {frames : List Frame} (h : Ledger hand s)
    (hframes : s.frames = .callback m f remove :: frames) :
    Ledger (m :: hand) { s with frames := .peeking f remove :: frames } := by
  refine ⟨h.ids, h.placed, fun a => ?_⟩
  have hrem : ({ s with frames := .peeking f remove :: frames } : State).removed =
    s.removed := rfl
  have := h.freed a
  simp only [State.owned, State.held, hrem, hframes, List.filterMap_cons, Frame.message,
    List.count_append, List.count_cons] at this ⊢
  omega

theorem getMsgPos (h : Ledger hand s) : Ledger hand s.getMsgPos :=
  ⟨h.ids, h.placed, h.freed⟩

theorem beforeProcMsg (h : Ledger hand s) (fields : Fields) :
    Ledger hand (s.beforeProcMsg fields) := by
  unfold State.beforeProcMsg
  cases hrem : s.removed with
  | none => exact h
  | some m =>
    dsimp only
    split_ifs
    · refine ⟨h.ids, h.placed, fun a => ?_⟩
      have hnone : ({ s.getMsgPos with
        stack := m :: s.getMsgPos.stack
        peek := none
        needFree := false } : State).removed = none := rfl
      have := h.freed a
      rw [State.owned, State.held, hnone]
      simp only [State.owned, State.held, hrem, State.getMsgPos, Option.toList_none,
        Option.toList_some, List.count_append, List.count_cons, List.count_nil] at this ⊢
      omega
    · exact h.getMsgPos

theorem afterProcMsg (h : Ledger hand s) (fields : Fields) :
    Ledger hand (s.afterProcMsg fields) := by
  unfold State.afterProcMsg
  cases hstack : s.stack with
  | nil => exact h
  | cons m stack =>
    dsimp only
    split_ifs
    · exact h
    · refine ⟨h.ids, h.placed, fun a => ?_⟩
      have hrem : ({ s with stack, freed := m :: s.freed } : State).removed = s.removed := rfl
      have := h.freed a
      simp only [State.owned, State.held, hrem, hstack, List.count_append,
        List.count_cons] at this ⊢
      omega
    · exact h

theorem owned_close (hframes : s.frames = []) : s.close.owned = [] := by
  have hrem : s.close.removed = none :=
    removed_dropPeek { s with queue := [], freed := s.queue ++ s.freed }
  rw [State.owned, State.held, hrem]
  simp [State.close, hframes]

/-- The destructor deletes what the thread owns, when it is in the middle of nothing. -/
theorem close (h : Ledger [] s) (hframes : s.frames = []) : Ledger [] s.close := by
  have hfreed : s.close.freed = s.stack ++ (s.removed.toList ++ (s.queue ++ s.freed)) := by
    simp only [State.close, dropPeek_stack, dropPeek_freed]
    rfl
  have hcreated : s.close.created = s.created := by
    simp only [State.close, dropPeek_created]
  refine ⟨by rw [hcreated, h.ids], fun hc => ?_, fun a => ?_⟩
  · simp [State.close] at hc
  · have := h.freed a
    rw [owned_close hframes, hfreed, hcreated]
    simp only [State.owned, State.held, hframes, List.filterMap_nil, List.count_append,
      List.count_nil] at this ⊢
    omega

end Ledger

/-! ### What is peeked and what is kept -/

/-- What `m_msgPeek` points to without `m_bMsgNeedFree`, what has been read, and what is kept. -/
structure Calm (s : State) : Prop where
  peeked : s.needFree = false → ∀ m ∈ s.peek,
    (isCallback m = false ∧ isDelay m = false) ∧ (m ∈ s.queue ∨ m ∈ s.freed)
  read : s.misread = false
  kept : ∀ m ∈ s.posted, (m, .merged) ∉ s.fates

/-- A step that peeks nothing, reads nothing and keeps everything; the messages `hand` may be on
their way from the queue to an owner. -/
structure Quiet (hand : List Msg) (s s' : State) : Prop where
  misread : s'.misread = s.misread
  posted : s'.posted = s.posted
  peek : s'.peek = s.peek
  needFree : s'.needFree = s.needFree
  queue : ∀ m ∈ s.queue, m ∈ s'.queue ∨ m ∈ s'.freed ∨ m ∈ hand
  freed : ∀ m ∈ s.freed, m ∈ s'.freed
  fates : ∀ m, (m, .merged) ∈ s'.fates → (m, .merged) ∈ s.fates

theorem Calm.quiet {s s' : State} {hand : List Msg} (h : Calm s) (hq : Quiet hand s s')
    (hhand : ∀ m ∈ hand, isCallback m = true ∨ isDelay m = true) : Calm s' where
  peeked hfree m hm := by
    obtain ⟨hkind, hplace⟩ := h.peeked (hq.needFree ▸ hfree) m (hq.peek ▸ hm)
    refine ⟨hkind, ?_⟩
    rcases hplace with hqueue | hfreed
    · rcases hq.queue m hqueue with h' | h' | h'
      · exact .inl h'
      · exact .inr h'
      · rcases hhand m h' with hc | hd
        · rw [hkind.1] at hc
          cases hc
        · rw [hkind.2] at hd
          cases hd
    · exact .inr (hq.freed m hfreed)
  read := hq.misread.trans h.read
  kept m hm hmerged := h.kept m (hq.posted ▸ hm) (hq.fates m hmerged)

theorem Quiet.trans {s₁ s₂ s₃ : State} {hand : List Msg} (h : Quiet hand s₁ s₂)
    (h' : Quiet [] s₂ s₃) : Quiet hand s₁ s₃ where
  misread := h'.misread.trans h.misread
  posted := h'.posted.trans h.posted
  peek := h'.peek.trans h.peek
  needFree := h'.needFree.trans h.needFree
  queue m hm := by
    rcases h.queue m hm with hq | hf | hh
    · exact (h'.queue m hq).imp id (Or.imp id fun h => absurd h List.not_mem_nil)
    · exact .inr (.inl (h'.freed m hf))
    · exact .inr (.inr hh)
  freed m hm := h'.freed m (h.freed m hm)
  fates m hm := h.fates m (h'.fates m hm)

namespace Quiet

variable {s : State}

theorem push (fields : Fields) : Quiet [] s (s.push fields) :=
  ⟨rfl, rfl, rfl, rfl, fun _ hm => .inl (List.mem_append_left _ hm), fun _ hm => hm,
    fun _ hm => hm⟩

theorem discard (p : Msg → Bool) (fate : Fate) (hfate : fate ≠ .merged) :
    Quiet [] s (s.discard p fate) := by
  refine ⟨rfl, rfl, rfl, rfl, fun m hm => ?_, fun m hm => List.mem_append_right _ hm,
    fun m hm => ?_⟩
  · cases hp : p m with
    | true => exact .inr (.inl (List.mem_append_left _ (List.mem_filter.2 ⟨hm, hp⟩)))
    | false => exact .inl (List.mem_filter.2 ⟨hm, by simp [hp]⟩)
  · rcases List.mem_append.1 hm with hm | hm
    · obtain ⟨_, -, he⟩ := List.mem_map.1 hm
      exact absurd (congrArg Prod.snd he) hfate
    · exact hm

theorem killTimer (hwnd id : ℕ) : Quiet [] s (s.killTimer hwnd id) := by
  unfold State.killTimer
  split_ifs
  · have h := discard (s := { s with
        timers := s.timers.eraseP fun t => t.hWnd = hwnd && t.id = id })
      (fun m => m.hwnd = hwnd && m.message = WM_TIMER && m.wParam = id) .timerKilled (by simp)
    exact ⟨h.misread, h.posted, h.peek, h.needFree, h.queue, h.freed, h.fates⟩
  · exact ⟨rfl, rfl, rfl, rfl, fun _ hm => .inl hm, fun _ hm => hm, fun _ hm => hm⟩

theorem sweep (f : Filter) : Quiet [] s (s.sweep f) := by
  refine ⟨rfl, rfl, rfl, rfl, fun m hm => ?_, fun m hm => List.mem_append_right _ hm,
    fun m hm => ?_⟩
  · have hcount := count_scan s.gone f s.queue m
    have hpos := List.count_pos_iff.2 hm
    by_cases hdel : m ∈ scanned s.gone f s.queue
    · exact .inr (.inl (List.mem_append_left _ hdel))
    · rw [List.count_eq_zero_of_not_mem hdel] at hcount
      exact .inl (List.count_pos_iff.1 (hpos.trans_eq (hcount.trans (Nat.zero_add _))))
  · rcases List.mem_append.1 hm with hm | hm
    · obtain ⟨_, -, he⟩ := List.mem_map.1 hm
      exact absurd (congrArg Prod.snd he) (by simp)
    · exact hm

theorem take (m : Msg) (fate : Fate) (hfate : fate ≠ .merged) :
    Quiet [m] s (s.take m fate) := by
  refine ⟨rfl, rfl, rfl, rfl, fun m' hm' => ?_, fun _ hm => hm, fun m' hm' => ?_⟩
  · by_cases he : m' = m
    · exact .inr (.inr (List.mem_singleton.2 he))
    · exact .inl ((List.mem_erase_of_ne he).2 hm')
  · rcases List.mem_cons.1 hm' with he | hm'
    · exact absurd (congrArg Prod.snd he).symm hfate
    · exact hm'

end Quiet

theorem Calm.dropPeek {s : State} (h : Calm s) : Calm s.dropPeek := by
  unfold State.dropPeek
  cases hrem : s.removed with
  | none => exact h
  | some m => exact ⟨fun _ _ hm => (by cases hm), h.read, h.kept⟩

theorem Calm.peekMsg {s : State} (h : Calm s) (f : Filter) (remove : Bool) :
    Calm (s.peekMsg f remove) := by
  have hsweep : Calm (s.sweep f) := h.quiet (.sweep f) (by simp)
  unfold State.peekMsg
  cases hfound : s.found f with
  | none => exact hsweep
  | some m =>
    have h₁ := hsweep.dropPeek
    dsimp only
    split_ifs with hcall hdelay
    · have h₂ := h₁.quiet (.take m .ran (by simp)) (by simp [hcall])
      exact ⟨h₂.peeked, h₂.read, h₂.kept⟩
    · have h₂ := h₁.quiet ((Quiet.take m .ran (by simp)).trans
        (.killTimer m.hwnd m.wParam)) (by simp [hdelay])
      exact ⟨fun hfree m' hm' => (h₂.peeked hfree m' hm').imp id
        (Or.imp id (List.mem_cons_of_mem _)), h₂.read, h₂.kept⟩
    · refine ⟨fun hfree => (by cases hfree), h₁.read, fun m' hm' hmerged => ?_⟩
      rcases List.mem_cons.1 hmerged with he | hmerged
      · cases he
      · exact h₁.kept m' hm' hmerged
    · refine ⟨fun _ m' hm' => ?_, h₁.read, h₁.kept⟩
      obtain rfl := Option.some.inj hm'
      exact ⟨⟨by simpa using hcall, by simpa using hdelay⟩, .inl (Ledger.mem_sweep hfound)⟩

/-- A message that `m_msgPeek` owns, or that is in the queue, is there to be read. -/
theorem Ledger.reads_eq_false {s : State} {hand : List Msg} (h : Ledger hand s)
    (hpeek : ∀ m ∈ s.peek, m ∈ s.owned) : s.reads = false := by
  unfold State.reads
  cases hp : s.peek with
  | none => rfl
  | some m => simpa using h.notMem_freed (hpeek m hp)

theorem Calm.getMsgPos {s : State} (h : Calm s) (hreads : s.reads = false) :
    Calm s.getMsgPos :=
  ⟨h.peeked, by rw [State.getMsgPos, h.read, hreads]; rfl, h.kept⟩

theorem Calm.beforeProcMsg {s : State} (h : Calm s) (hl : Ledger [] s) (fields : Fields) :
    Calm (s.beforeProcMsg fields) := by
  unfold State.beforeProcMsg
  cases hrem : s.removed with
  | none => exact h
  | some m =>
    have hreads : s.reads = false := hl.reads_eq_false fun m' hm' => by
      have hm : s.removed = some m' := by
        rw [State.removed] at hrem ⊢
        split_ifs at hrem ⊢
        exact hm'
      simp [State.owned, State.held, hm]
    have h₁ := h.getMsgPos hreads
    dsimp only
    split_ifs
    · exact ⟨fun _ _ hm => (by cases hm), h₁.read, h₁.kept⟩
    · exact h₁

theorem Calm.afterProcMsg {s : State} (h : Calm s) (fields : Fields) :
    Calm (s.afterProcMsg fields) := by
  unfold State.afterProcMsg
  cases hstack : s.stack with
  | nil => exact h
  | cons m stack =>
    dsimp only
    split_ifs
    · exact h
    · exact ⟨fun hfree m' hm' => (h.peeked hfree m' hm').imp id
        (Or.imp id (List.mem_cons_of_mem _)), h.read, h.kept⟩
    · exact h

theorem Calm.dropFirst {s : State} (h : Calm s) {p : Msg → Bool}
    (hp : ∀ m ∈ s.queue.find? p, m ∉ s.posted) : Calm (s.dropFirst p) := by
  unfold State.dropFirst
  cases hfind : s.queue.find? p with
  | none => exact h
  | some m =>
    refine ⟨fun hfree m' hm' => ?_, h.read, fun m' hm' hmerged => ?_⟩
    · refine (h.peeked hfree m' hm').imp id fun hplace => ?_
      rcases hplace with hqueue | hfreed
      · by_cases he : m' = m
        · exact .inr (List.mem_cons.2 (.inl he))
        · exact .inl ((List.mem_erase_of_ne he).2 hqueue)
      · exact .inr (List.mem_cons_of_mem _ hfreed)
    · rcases List.mem_cons.1 hmerged with he | hmerged
      · obtain rfl := (Prod.mk.inj he).1
        exact hp m' hfind hm'
      · exact h.kept m' hm' hmerged

@[simp] theorem dropFirst_posted (s : State) (p : Msg → Bool) :
    (s.dropFirst p).posted = s.posted := by
  unfold State.dropFirst
  split <;> rfl

theorem mem_fates_dropFirst {s : State} {p : Msg → Bool} {x : Msg × Fate} (hx : x ∈ s.fates) :
    x ∈ (s.dropFirst p).fates := by
  unfold State.dropFirst
  split
  · exact hx
  · exact List.mem_cons_of_mem _ hx

theorem mem_fates_drops {s : State} {l : List (Msg → Bool)} {x : Msg × Fate} (hx : x ∈ s.fates) :
    x ∈ (l.foldl State.dropFirst s).fates := by
  induction l generalizing s with
  | nil => exact hx
  | cons p l ih => exact ih (mem_fates_dropFirst hx)

theorem Calm.drops {s : State} (h : Calm s) {l : List (Msg → Bool)} (hl : s.Keeps l) :
    Calm (l.foldl State.dropFirst s) := by
  induction l generalizing s with
  | nil => exact h
  | cons p l ih => exact ih (h.dropFirst hl.1) hl.2

theorem keeps_of_kept {s : State} {l : List (Msg → Bool)}
    (h : ∀ m ∈ s.posted, (m, Fate.merged) ∉ (l.foldl State.dropFirst s).fates) : s.Keeps l := by
  induction l generalizing s with
  | nil => trivial
  | cons p l ih =>
    refine ⟨fun m hm hposted => h m hposted (mem_fates_drops (s := s.dropFirst p) ?_),
      ih fun m hm => ?_⟩
    · have hfind : s.queue.find? p = some m := hm
      unfold State.dropFirst
      rw [hfind]
      exact List.mem_cons_self
    · rw [dropFirst_posted] at hm
      exact h m hm

theorem Calm.pushes {s : State} (h : Calm s) (l : List Fields) :
    Calm (l.foldl State.push s) := by
  induction l generalizing s with
  | nil => exact h
  | cons fields l ih => exact ih (h.quiet (.push fields) (by simp))

theorem pushes_fates (s : State) (l : List Fields) :
    (l.foldl State.push s).fates = s.fates ∧ (l.foldl State.push s).posted = s.posted := by
  induction l generalizing s with
  | nil => exact ⟨rfl, rfl⟩
  | cons fields l ih => exact ih (s.push fields)

theorem drops_posted (s : State) (l : List (Msg → Bool)) :
    (l.foldl State.dropFirst s).posted = s.posted := by
  induction l generalizing s with
  | nil => rfl
  | cons p l ih => rw [List.foldl_cons, ih, dropFirst_posted]

theorem peekMsg_of_returns {s : State} {f : Filter} {m : Msg} (h : s.Returns f m) :
    s.peekMsg f false = { (s.sweep f).dropPeek with peek := some m, needFree := false } ∧
      s.peekMsg f true =
        { (s.sweep f).dropPeek.take m .returned with peek := some m, needFree := true } := by
  obtain ⟨hfound, hcall, hdelay⟩ := h
  simp [State.peekMsg, hfound, hcall, hdelay]

@[simp] theorem dropPeek_gone (s : State) : s.dropPeek.gone = s.gone := by
  unfold State.dropPeek
  split <;> rfl

/-- **A message that is left in the queue is returned again.** -/
theorem returns_again {s : State} {f : Filter} {m : Msg} (h : s.Returns f m) :
    (s.peekMsg f false).peek = some m ∧ m ∈ (s.peekMsg f false).queue ∧
      (s.peekMsg f false).Returns f m := by
  rw [(peekMsg_of_returns h).1]
  refine ⟨rfl, Ledger.mem_sweep h.1, ?_, h.2⟩
  simp only [State.found, dropPeek_gone, Ledger.dropPeek_queue]
  exact scan_again h.1

/-- **A message that is taken is no longer in the queue.** -/
theorem Ledger.taken {s : State} (hl : Ledger [] s) {f : Filter} {m : Msg} (h : s.Returns f m) :
    (s.peekMsg f true).peek = some m ∧ m ∉ (s.peekMsg f true).queue := by
  rw [(peekMsg_of_returns h).2]
  refine ⟨rfl, fun hm => ?_⟩
  have h₁ := (hl.sweep f).dropPeek
  have hcount := h₁.freed m
  have hle := h₁.count_le m
  have hpos := List.count_pos_iff.2 hm
  simp only [State.take, List.count_erase_self] at hpos
  simp only [State.owned, List.count_append] at hcount
  omega

/-- **The invariant.** -/
structure Inv (s : State) : Prop where
  ledger : Ledger [] s
  closed : s.closed = true → s.owned = []
  calm : Calm s

theorem Inv.init (gone : ℕ → Bool) : Inv (init gone) :=
  ⟨Ledger.init gone, fun _ => rfl, fun _ _ hm => (by cases hm), rfl, fun _ hm => (by cases hm)⟩

theorem Inv.sound {s : State} (h : Inv s) : Sound s := by
  have hone : ∀ m ∈ s.created, s.created.count m = 1 := fun m hm =>
    List.count_eq_one_of_mem h.ledger.nodup hm
  refine ⟨fun hc m hm => ?_, h.calm.kept, fun m hm => ?_, fun hc m hm => ?_, h.calm.read,
    fun f m hret => ⟨(scan_found hret.1).1, scan_split hret.1⟩, fun f m => returns_again,
    fun f m => h.ledger.taken⟩
  · rw [h.ledger.placed hc, hone m hm]
  · have := h.ledger.freed m
    rwa [hone m hm, List.count_nil, Nat.add_zero] at this
  · have := h.ledger.freed m
    rwa [h.closed hc, hone m hm, List.count_nil, Nat.zero_add] at this

section Open

variable (s : State)

@[simp] theorem dropPeek_closed : s.dropPeek.closed = s.closed := by
  unfold State.dropPeek
  split <;> rfl

@[simp] theorem killTimer_closed (hwnd id : ℕ) : (s.killTimer hwnd id).closed = s.closed := by
  unfold State.killTimer
  split_ifs <;> rfl

@[simp] theorem peekMsg_closed (f : Filter) (remove : Bool) :
    (s.peekMsg f remove).closed = s.closed := by
  unfold State.peekMsg
  cases s.found f with
  | none => rfl
  | some m =>
    dsimp only
    split_ifs <;> simp [State.take, State.sweep]

@[simp] theorem beforeProcMsg_closed (fields : Fields) :
    (s.beforeProcMsg fields).closed = s.closed := by
  unfold State.beforeProcMsg
  cases s.removed with
  | none => rfl
  | some m =>
    dsimp only
    split_ifs <;> rfl

@[simp] theorem beforeProcMsg_frames (fields : Fields) :
    (s.beforeProcMsg fields).frames = s.frames := by
  unfold State.beforeProcMsg
  cases s.removed with
  | none => rfl
  | some m =>
    dsimp only
    split_ifs <;> rfl

@[simp] theorem afterProcMsg_closed (fields : Fields) :
    (s.afterProcMsg fields).closed = s.closed := by
  unfold State.afterProcMsg
  cases s.stack with
  | nil => rfl
  | cons m stack =>
    dsimp only
    split_ifs <;> rfl

@[simp] theorem setTimer_closed (hwnd id proc : ℕ) :
    (s.setTimer hwnd id proc).closed = s.closed := by
  unfold State.setTimer
  split_ifs <;> rfl

theorem event_closed (e : Event) : (s.event e).closed = s.closed := by
  have hdrops : ∀ (l : List (Msg → Bool)) (s : State),
      (l.foldl State.dropFirst s).closed = s.closed := by
    intro l
    induction l with
    | nil => exact fun _ => rfl
    | cons p l ih =>
      intro s
      rw [List.foldl_cons, ih, State.dropFirst]
      split <;> rfl
  have hnews : ∀ (l : List Fields) (s : State), (l.foldl State.push s).closed = s.closed := by
    intro l
    induction l with
    | nil => exact fun _ => rfl
    | cons fields l ih =>
      intro s
      rw [List.foldl_cons, ih]
      rfl
  rw [State.event, hnews, hdrops]

end Open

theorem whenFree_eq_some {s s' t : State} (h : s.whenFree t = some s') : s' = t := by
  unfold State.whenFree at h
  split_ifs at h
  exact (Option.some.inj h).symm

theorem Inv.step {s' : State} (hopen : s'.closed = false) (hl : Ledger [] s') (hc : Calm s') :
    Inv s' :=
  ⟨hl, fun h => (by rw [hopen] at h; cases h), hc⟩

/-- **Every orderly step keeps the invariant.** -/
theorem Inv.of_next {s s' : State} {a : Act} (h : Inv s) (hO : Orderly s a)
    (hn : next s a = some s') : Inv s' := by
  obtain ⟨hl, -, hc⟩ := h
  unfold next at hn
  by_cases hclosed : s.closed = true
  · rw [if_pos hclosed] at hn
    cases hn
  rw [if_neg hclosed] at hn
  have hopen : s.closed = false := by simpa using hclosed
  have hframes : ∀ frames : List Frame,
      frames.filterMap Frame.message = s.frames.filterMap Frame.message →
      Ledger [] { s with frames } ∧ Calm { s with frames } := fun _ hf =>
    ⟨hl.frames hf, hc.peeked, hc.read, hc.kept⟩
  cases a with
  | post fields =>
    cases hn
    have hp := hl.push fields
    refine .step hopen ⟨hp.ids, hp.placed, hp.freed⟩ ?_
    have hq := hc.quiet (.push fields) (by simp)
    refine ⟨hq.peeked, hq.read, fun m hm hmerged => ?_⟩
    rcases List.mem_append.1 hm with hm | hm
    · exact hc.kept m hm hmerged
    · -- the new message has no fate yet
      rw [List.mem_singleton.1 hm] at hmerged
      have hplaced := hl.placed hopen ⟨fields, s.created.length⟩
      rw [List.count_eq_zero_of_not_mem (hl.new_notMem fields)] at hplaced
      have hpos : 0 < (s.fates.map Prod.fst).count ⟨fields, s.created.length⟩ :=
        List.count_pos_iff.2 (List.mem_map_of_mem (f := Prod.fst) hmerged)
      omega
  | setGone hwnd b =>
    cases hn
    exact .step hopen ⟨hl.ids, hl.placed, hl.freed⟩ ⟨hc.peeked, hc.read, hc.kept⟩
  | event e =>
    cases hn
    exact .step (by rw [event_closed, hopen]) (hl.event e) ((hc.drops hO).pushes _)
  | fire t =>
    dsimp only at hn
    split_ifs at hn
    cases hn
    exact .step hopen (hl.push _) (hc.quiet (.push _) (by simp))
  | peekMsg f remove =>
    obtain rfl := whenFree_eq_some hn
    exact .step (by rw [peekMsg_closed, hopen]) (hl.peekMsg f remove) (hc.peekMsg f remove)
  | peekAgain =>
    rcases hf : s.frames with _ | ⟨_ | _ | _, frames⟩ <;> rw [hf] at hn <;> cases hn
    obtain ⟨hl', hc'⟩ := hframes frames (by rw [hf]; rfl)
    exact .step (by rw [peekMsg_closed]; exact hopen) (hl'.peekMsg _ _) (hc'.peekMsg _ _)
  | callbackDone =>
    rcases hf : s.frames with _ | ⟨_ | ⟨m, f, remove⟩ | _, frames⟩ <;> rw [hf] at hn <;> cases hn
    refine .step hopen ((hl.hangUp hf).free) ⟨fun hfree m' hm' => ?_, hc.read, hc.kept⟩
    exact (hc.peeked hfree m' hm').imp id (Or.imp id (List.mem_cons_of_mem _))
  | callProc fields =>
    obtain rfl := whenFree_eq_some hn
    have hl' := hl.beforeProcMsg fields
    have hc' := hc.beforeProcMsg hl fields
    exact .step (by rw [← beforeProcMsg_closed s fields] at hopen; exact hopen)
      (hl'.frames (by rw [beforeProcMsg_frames]; rfl)) ⟨hc'.peeked, hc'.read, hc'.kept⟩
  | procDone =>
    rcases hf : s.frames with _ | ⟨_ | _ | _, frames⟩ <;> rw [hf] at hn <;> cases hn
    obtain ⟨hl', hc'⟩ := hframes frames (by rw [hf]; rfl)
    exact .step (by rw [afterProcMsg_closed]; exact hopen) (hl'.afterProcMsg _)
      (hc'.afterProcMsg _)
  | setTimer hwnd id proc =>
    obtain rfl := whenFree_eq_some hn
    refine .step (by rw [setTimer_closed, hopen]) ?_ ?_ <;> unfold State.setTimer <;>
      split_ifs <;> first
        | exact ⟨hl.ids, hl.placed, hl.freed⟩
        | exact ⟨hc.peeked, hc.read, hc.kept⟩
  | killTimer hwnd id =>
    obtain rfl := whenFree_eq_some hn
    exact .step (by rw [killTimer_closed, hopen]) (hl.killTimer hwnd id)
      (hc.quiet (.killTimer hwnd id) (by simp))
  | killWindowTimer hwnd =>
    obtain rfl := whenFree_eq_some hn
    exact .step hopen ⟨hl.ids, hl.placed, hl.freed⟩ ⟨hc.peeked, hc.read, hc.kept⟩
  | getMsgPos =>
    obtain rfl := whenFree_eq_some hn
    refine .step hopen hl.getMsgPos (hc.getMsgPos (hl.reads_eq_false fun m hm => ?_))
    by_cases hfree : s.needFree = true
    · have hrem : s.removed = some m := by
        rw [State.removed, if_pos hfree]
        exact hm
      simp [State.owned, State.held, hrem]
    · exact List.mem_append_left _ (hO (by simpa using hfree) m hm)
  | close =>
    dsimp only at hn
    split_ifs at hn with hnone
    cases hn
    have hempty : Calm { s with queue := [], freed := s.queue ++ s.freed } :=
      ⟨fun hfree m hm => (hc.peeked hfree m hm).imp id fun hplace =>
        .inr (List.mem_append.2 hplace), hc.read, hc.kept⟩
    have hdrop := hempty.dropPeek
    refine ⟨hl.close hnone, fun _ => Ledger.owned_close hnone, ?_⟩
    exact ⟨fun hfree m hm => (hdrop.peeked hfree m hm).imp id
      (Or.imp id (List.mem_append_right _)), hdrop.read, hdrop.kept⟩

theorem Inv.orderly {s s' : State} {a : Act} (h : Inv s) (hn : next s a = some s')
    (hs : Sound s') : Orderly s a := by
  unfold next at hn
  by_cases hclosed : s.closed = true
  · rw [if_pos hclosed] at hn
    cases hn
  rw [if_neg hclosed] at hn
  cases a with
  | event e =>
    cases hn
    refine keeps_of_kept fun m hm hmerged => ?_
    obtain ⟨hfates, hposted⟩ := pushes_fates (e.drops.foldl State.dropFirst s) e.news
    refine hs.kept m ?_ ?_
    · rwa [State.event, hposted, drops_posted]
    · rwa [State.event, hfates]
  | getMsgPos =>
    obtain rfl := whenFree_eq_some hn
    intro hfree m hm
    refine (h.calm.peeked hfree m hm).2.resolve_right fun hfreed => ?_
    have hreads : s.reads = true := by
      have hpeek : s.peek = some m := hm
      simp [State.reads, hpeek, hfreed]
    have hread := hs.read
    simp [State.getMsgPos, hreads] at hread
  | _ => trivial

/-- **The runs in which everything is sound are the orderly ones**: any threads that post, any
nesting of peeks, timers and window procedures, and windows that go at any time. -/
theorem ownership_iff (gone : ℕ → Bool) (acts : List Act) :
    lts.AllStates Sound (init gone) acts ↔ lts.AllSteps Orderly (init gone) acts :=
  LTS.allStates_iff_allSteps (I := Inv) (fun _ h => h.sound) (fun _ _ _ h hO hn => h.of_next hO hn)
    (fun _ _ _ h hn hs => h.orderly hn hs) (.init gone)

/-- **A deleted message is read**: a message is peeked with `PM_NOREMOVE`, its window goes, the next
peek deletes the message, and `GetMsgTime` reads it. -/
theorem freed_read_after_destroy : ∃ s,
    lts.run (init fun _ => false)
      [.post ⟨1, 0x0400, 0, 0⟩, .peekMsg ⟨0, 0, 0⟩ false, .setGone 1 true, .peekMsg ⟨0, 0, 0⟩ false,
        .getMsgPos] = some s ∧ s.misread = true ∧ ¬ Sound s :=
  ⟨_, rfl, rfl, fun h => by cases h.read⟩

end Ownership

end Message

end Swinx
