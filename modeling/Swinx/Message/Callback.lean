import Mathlib
import Swinx.LTS.Basic
import Swinx.Message.Counted

/-!
# `SendMessageCallback`

A call creates a task and an event and puts the task into `m_lstCallbackTask` of its connection.
The message goes with a `CallbackReply` to a thread of the same process, or through a shared
segment to another one.  `peekMsg` goes through the list: `TestEvent` of a task whose event is set
calls the callback, and then the task is released and erased.  The callback may pump messages, so
that the list is gone through inside of a step of an outer scan.

The receiving side is only known by what it does to the event, the result and the message: it may
call `SetResult` with any value, once, while it has the message, and delete the message at any
time.

* `calls_delivered_iff` — a run is delivered in all its states exactly if its steps are orderly.
-/

namespace Swinx

namespace Callback

/-- How far the handler of a message is. -/
inductive Handler
  | none
  | running
  | returned (res : ℤ)
  deriving DecidableEq, Repr

/-- A call of `SendMessageCallback`. -/
structure Call where
  /-- The value that it returns. -/
  ret : ℤ
  /-- Is the window of another process? -/
  ipc : Bool
  /-- There is a task. -/
  posted : Bool
  /-- `synEvent` of the task is a handle. -/
  evt : Bool
  /-- `synEvent` of the reply, or `synEvt` of the `IpcMsg`, is a handle. -/
  rEvt : Bool
  /-- The receiver has the message. -/
  received : Bool
  /-- The handler of the message. -/
  handler : Handler
  /-- `SetResult` was called. -/
  hasResult : Bool
  /-- The message has been deleted. -/
  msgGone : Bool
  /-- The references of the task. -/
  task : Counted
  /-- `lResult` of the task, or `ret` in the segment. -/
  lResult : ℤ
  /-- The open handles of the event. -/
  evtRefs : ℕ
  /-- How often the event is set. -/
  evtSignals : ℕ
  /-- The `SharedMemory` objects of the segment. -/
  segRefs : ℕ
  /-- The results that `asyncProc` has been called with. -/
  invoked : List ℤ
  /-- `TestEvent` has returned `TRUE` and the task has been released. -/
  returned : Bool
  /-- A scan has ended that began when the message was done. -/
  passed : Bool
  deriving DecidableEq, Repr

/-- A scan of the list in `peekMsg`. -/
structure Frame where
  /-- `none` is `end()`. -/
  it : Option ℕ
  /-- The task whose callback is running. -/
  cur : Option ℕ
  /-- The calls whose messages were done when the scan began. -/
  due : ℕ → Bool

/-- The calling thread and its calls. -/
structure State where
  /-- The number of calls so far. -/
  n : ℕ
  call : ℕ → Call
  /-- `m_lstCallbackTask`; a task is known by the number of its call. -/
  tasks : List ℕ
  /-- The scans in progress, the innermost first. -/
  frames : List Frame
  /-- A scan has waited for something that is not a handle. -/
  died : Bool

/-- A step of the calling thread or of a receiver. -/
inductive Act
  | send (bEvt : Bool)
  | sendIpc (bWideChar bPosted bEvt : Bool)
  /-- The constructor of `IpcMsg`. -/
  | receive (i : ℕ) (bEvt : Bool)
  | dispatch (i : ℕ)
  | handlerReturn (i : ℕ) (res : ℤ)
  | setResult (i : ℕ) (res : ℤ)
  | deleteMsg (i : ℕ)
  /-- `peekMsg` begins to go through the list. -/
  | peekMsg
  | testEvent
  /-- The callback returns; `Release` and `erase`. -/
  | callbackReturn
  | scanEnd
  deriving DecidableEq, Repr

/-- A call without a task and a message. -/
def Call.failed (ret : ℤ) : Call where
  ret := ret
  ipc := false
  posted := false
  evt := false
  rEvt := false
  received := false
  handler := .none
  hasResult := false
  msgGone := true
  task := .new
  lResult := 0
  evtRefs := 0
  evtSignals := 0
  segRefs := 0
  invoked := []
  returned := false
  passed := false

/-- `_SendMessageCallback` to a window of the process. -/
def Call.inProcess (bEvt : Bool) : Call where
  ret := 1
  ipc := false
  posted := true
  evt := bEvt
  rEvt := bEvt
  received := true
  handler := .none
  hasResult := false
  msgGone := false
  -- `postCallbackTask` and the `Release` of the creator
  task := Counted.new.addRef.release
  lResult := 0
  -- `hEvt`, the task, the reply, and `CloseHandle(hEvt)`
  evtRefs := 2 * bEvt.toNat
  evtSignals := 0
  segRefs := 0
  invoked := []
  returned := false
  passed := false

/-- `_SendMessageCallback` to another process. -/
def Call.otherProcess (bWideChar bPosted bEvt : Bool) : Call :=
  if bWideChar then .failed 0
  else if bPosted then
    { Call.failed 1 with
      ipc := true
      posted := true
      evt := bEvt
      msgGone := false
      -- `postCallbackTask`; the creator keeps its reference
      task := Counted.new.addRef
      evtRefs := bEvt.toNat
      segRefs := 1 }
  else .failed (-1)

namespace Call

variable (c : Call)

/-- The receiver has answered or deleted the message, or there is none. -/
def done : Bool := c.hasResult || c.msgGone

/-- `SetEvent` of the receiver. -/
def setEvent : Call := if c.rEvt then { c with evtSignals := c.evtSignals + 1 } else c

/-- The constructor of `IpcMsg` opens the event and the segment. -/
def receive (bEvt : Bool) : Call :=
  { c with
    received := true
    rEvt := bEvt
    evtRefs := c.evtRefs + bEvt.toNat
    segRefs := c.segRefs + 1 }

/-- `SetResult`; a `CallbackReply` writes into the task. -/
def setResult (res : ℤ) : Call :=
  { c with
    task := if c.ipc then c.task else c.task.touch
    lResult := res
    hasResult := true }.setEvent

/-- The destructors of the message and of its reply. -/
def deleteMsg : Call :=
  let c := if c.hasResult then c else c.setEvent
  { c with
    msgGone := true
    evtRefs := c.evtRefs - c.rEvt.toNat
    segRefs := c.segRefs - c.ipc.toNat }

/-- `TestEvent` up to the callback. -/
def testEvent : Call :=
  if 0 < c.evtSignals then
    { c with
      task := c.task.touch
      evtSignals := c.evtSignals - 1
      invoked := c.invoked ++ [c.lResult] }
  else { c with task := c.task.touch }

/-- `Release` after the callback; the last one deletes the task, its handle and its
`SharedMemory`. -/
def finish : Call :=
  let freed := c.task.frees = 0 && c.task.release.frees ≠ 0
  { c with
    returned := true
    task := c.task.release
    evtRefs := if freed then c.evtRefs - c.evt.toNat else c.evtRefs
    segRefs := if freed then c.segRefs - c.ipc.toNat else c.segRefs }

end Call

/-- The iterator after that of `i`. -/
def nextOf : List ℕ → ℕ → Option ℕ
  | [], _ => none
  | j :: l, i => if j = i then l.head? else nextOf l i

namespace State

variable (s : State)

/-- The calling thread is in the code of the program: it is in no scan, or in a callback. -/
def inUser : Bool :=
  match s.frames with
  | [] => true
  | f :: _ => f.cur.isSome

/-- One call has changed. -/
def set (i : ℕ) (c : Call) : State := { s with call := Function.update s.call i c }

/-- A new call; its task is put at the end of the list. -/
def push (c : Call) : State :=
  { s with
    n := s.n + 1
    call := Function.update s.call s.n c
    tasks := if c.posted then s.tasks ++ [s.n] else s.tasks }

/-- The calls that a scan owes their callback. -/
def due (i : ℕ) : Bool := decide (i < s.n) && (decide ((s.call i).ret ≠ 0) && (s.call i).done)

end State

/-- Before the first call. -/
def init : State := ⟨0, fun _ => .failed 0, [], [], false⟩

/-- One step of a process that has not died. -/
def step (s : State) : Act → Option State
  | .send bEvt => if s.inUser then some (s.push (.inProcess bEvt)) else none
  | .sendIpc bWideChar bPosted bEvt =>
    if s.inUser then some (s.push (.otherProcess bWideChar bPosted bEvt)) else none
  | .receive i bEvt =>
    let c := s.call i
    if c.ipc = true ∧ c.received = false then some (s.set i (c.receive bEvt)) else none
  | .dispatch i =>
    let c := s.call i
    if c.received = true ∧ c.msgGone = false ∧ c.handler = .none then
      some (s.set i { c with handler := .running })
    else none
  | .handlerReturn i res =>
    let c := s.call i
    if c.handler = .running then some (s.set i { c with handler := .returned res }) else none
  | .setResult i res =>
    let c := s.call i
    if c.done = false ∧ c.handler ≠ .none then some (s.set i (c.setResult res)) else none
  | .deleteMsg i =>
    let c := s.call i
    if c.received = true ∧ c.msgGone = false then some (s.set i c.deleteMsg) else none
  | .peekMsg =>
    if s.inUser then some { s with frames := ⟨s.tasks.head?, none, s.due⟩ :: s.frames } else none
  | .testEvent =>
    match s.frames with
    | ⟨some i, none, due⟩ :: frames =>
      let c := s.call i
      -- an iterator to an erased element: undefined
      if i ∉ s.tasks then none
      else if c.evt then
        let cur := if 0 < c.evtSignals then some i else none
        some { s.set i c.testEvent with frames := ⟨nextOf s.tasks i, cur, due⟩ :: frames }
      -- `WaitForSingleObject` of an invalid handle
      else some { s with died := true }
    | _ => none
  | .callbackReturn =>
    match s.frames with
    | ⟨it, some i, due⟩ :: frames =>
      some { s.set i (s.call i).finish with
        tasks := s.tasks.erase i
        frames := ⟨it, none, due⟩ :: frames }
    | _ => none
  | .scanEnd =>
    match s.frames with
    | ⟨none, none, due⟩ :: frames =>
      some { s with
        call := fun i => { s.call i with passed := (s.call i).passed || due i }
        frames := frames }
    | _ => none

/-- One step. -/
def next (s : State) (act : Act) : Option State := if s.died then none else step s act

/-- The calling thread and the receivers as a transition system. -/
def lts : LTS State Act := ⟨next⟩

/-- **The calls are delivered.** -/
structure Delivered (s : State) : Prop where
  /-- A callback is called at most once. -/
  once : ∀ i, (s.call i).invoked.length ≤ 1
  /-- If the message was done before a scan, it has been called after the scan. -/
  called : ∀ i, (s.call i).passed = true → (s.call i).invoked.length = 1
  /-- A scan comes to its end. -/
  alive : s.died = false
  /-- It gets the result of the handler, or the message was deleted without one. -/
  result : ∀ i, ∀ v ∈ (s.call i).invoked, (s.call i).handler = .returned v ∨
    ((s.call i).handler = .none ∧ (s.call i).msgGone = true)
  /-- A scan does not go on with an erased element. -/
  traversal : ∀ f ∈ s.frames, ∀ i ∈ f.it, i ∈ s.tasks
  /-- A freed task is not written, nor used otherwise. -/
  unused : ∀ i, (s.call i).task.misused = false
  /-- After the callback nothing is left. -/
  freed : ∀ i, (s.call i).returned = true →
    (s.call i).task.nRef = 0 ∧ (s.call i).evtRefs = 0 ∧ (s.call i).segRefs = 0

/-- **The good steps.** -/
def Orderly (s : State) : Act → Prop
  | .testEvent => ∀ f ∈ s.frames.head?, ∀ i ∈ f.it, (s.call i).evt = true ∧
    (0 < (s.call i).evtSignals → (s.call i).handler = .none ∨
      (s.call i).handler = .returned (s.call i).lResult)
  | .callbackReturn => ∀ f ∈ s.frames.head?, ∀ i ∈ f.cur,
    (s.call i).ipc = false ∧ (s.call i).msgGone = true ∧ ∀ g ∈ s.frames.tail, g.it ≠ some i
  | .scanEnd => ∀ f ∈ s.frames.head?, ∀ i, f.due i = true →
    (s.call i).posted = true ∧ (s.call i).rEvt = true
  | _ => True

/-! ### The list -/

theorem nextOf_spec {l : List ℕ} {i : ℕ} (hsorted : l.Pairwise (· < ·)) (hi : i ∈ l) :
    (∀ k ∈ nextOf l i, k ∈ l ∧ i < k) ∧ ∀ j ∈ l, i < j → ∃ k ∈ nextOf l i, k ≤ j := by
  induction l with
  | nil => cases hi
  | cons a l ih =>
    rw [List.pairwise_cons] at hsorted
    rcases eq_or_ne a i with rfl | hne
    · rw [nextOf, if_pos rfl]
      refine ⟨fun k hk => ?_, fun j hj hlt => ?_⟩
      · have hmem := List.mem_of_mem_head? hk
        exact ⟨List.mem_cons_of_mem _ hmem, hsorted.1 k hmem⟩
      · cases l with
        | nil => simp only [List.mem_singleton] at hj; omega
        | cons b l =>
          refine ⟨b, rfl, ?_⟩
          rcases List.mem_cons.1 ((List.mem_cons.1 hj).resolve_left (by omega)) with rfl | hj
          · exact le_rfl
          · exact le_of_lt ((List.pairwise_cons.1 hsorted.2).1 j hj)
    · have hi : i ∈ l := (List.mem_cons.1 hi).resolve_left (Ne.symm hne)
      have hai : a < i := hsorted.1 i hi
      obtain ⟨h₁, h₂⟩ := ih hsorted.2 hi
      rw [nextOf, if_neg hne]
      refine ⟨fun k hk => ⟨List.mem_cons_of_mem _ (h₁ k hk).1, (h₁ k hk).2⟩, fun j hj hlt => ?_⟩
      exact h₂ j ((List.mem_cons.1 hj).resolve_left (by omega)) hlt

theorem head?_spec {l : List ℕ} (hsorted : l.Pairwise (· < ·)) {j : ℕ} (hj : j ∈ l) :
    ∃ k ∈ l.head?, k ≤ j := by
  cases l with
  | nil => cases hj
  | cons a l =>
    refine ⟨a, rfl, ?_⟩
    rcases List.mem_cons.1 hj with rfl | hj
    · exact le_rfl
    · exact le_of_lt ((List.pairwise_cons.1 hsorted).1 j hj)

/-- What is known of a call whose task is in the list or not. -/
structure Call.Fine (c : Call) (listed : Prop) : Prop where
  listed : listed ↔ c.posted = true ∧ c.returned = false
  once : c.invoked.length ≤ 1
  signals : c.evtSignals = if c.done = true ∧ c.rEvt = true ∧ c.invoked = [] then 1 else 0
  invoked : c.invoked ≠ [] →
    c.posted = true ∧ c.evt = true ∧ c.rEvt = true ∧ c.done = true
  returned : c.returned = true → c.invoked ≠ [] ∧ c.ipc = false ∧ c.msgGone = true
  failed : c.posted = false → c.received = false ∧ c.ipc = false ∧ c.done = true
  received : c.posted = true → c.received = false →
    c.done = false ∧ c.handler = .none ∧ c.rEvt = false
  handled : c.posted = false → c.handler = .none
  hasResult : c.hasResult = true → c.handler ≠ .none
  sound : c.task.misused = false
  held : c.posted = true →
    c.task.Held (if c.returned = true then 0 else if c.ipc = true then 2 else 1)
  inProcess : c.posted = true → c.ipc = false → c.received = true ∧ c.rEvt = c.evt ∧ c.segRefs = 0 ∧
    c.evtRefs = (c.evt && !c.returned).toNat + (c.evt && !c.msgGone).toNat
  result : ∀ v ∈ c.invoked, c.handler = .returned v ∨ (c.handler = .none ∧ c.msgGone = true)
  passed : c.passed = true → c.invoked.length = 1

namespace Call

theorem Fine.congr {c : Call} {p q : Prop} (h : c.Fine p) (hpq : p ↔ q) : c.Fine q :=
  { h with listed := hpq.symm.trans h.listed }

theorem fine_failed (ret : ℤ) : (failed ret).Fine False := by
  constructor <;> simp [failed, done, Counted.new]

theorem fine_inProcess (bEvt : Bool) : (inProcess bEvt).Fine True := by
  have hheld : (inProcess bEvt).task.Held 1 := Counted.held_new.addRef.release
  constructor
  case sound => exact hheld.sound
  case held => exact fun _ => hheld
  case inProcess => cases bEvt <;> exact fun _ _ => ⟨rfl, rfl, rfl, rfl⟩
  all_goals simp [inProcess, done]

theorem fine_otherProcess (bWideChar bPosted bEvt : Bool) :
    (otherProcess bWideChar bPosted bEvt).Fine
      ((otherProcess bWideChar bPosted bEvt).posted = true) := by
  unfold otherProcess
  cases bWideChar
  case true => exact (fine_failed 0).congr (by simp [failed])
  cases bPosted
  case false => exact (fine_failed (-1)).congr (by simp [failed])
  have hheld : Counted.new.addRef.Held 2 := Counted.held_new.addRef
  constructor
  case sound => exact hheld.sound
  case held => exact fun _ => hheld
  all_goals simp [failed, done]

theorem setEvent_eq (c : Call) : c.setEvent = { c with evtSignals := c.setEvent.evtSignals } := by
  unfold setEvent
  split_ifs <;> rfl

theorem setResult_eq (c : Call) (res : ℤ) : c.setResult res =
    { c with
      task := if c.ipc then c.task else c.task.touch
      lResult := res
      hasResult := true
      evtSignals := c.setEvent.evtSignals } := by
  unfold setResult setEvent
  cases c.rEvt <;> rfl

theorem deleteMsg_eq (c : Call) : c.deleteMsg =
    { c with
      msgGone := true
      evtSignals := if c.hasResult then c.evtSignals else c.setEvent.evtSignals
      evtRefs := c.evtRefs - c.rEvt.toNat
      segRefs := c.segRefs - c.ipc.toNat } := by
  unfold deleteMsg
  rw [setEvent_eq]
  split_ifs <;> rfl

namespace Fine

variable {c : Call} {listed : Prop}

theorem dispatch (h : c.Fine listed) (hreceived : c.received = true) (hgone : c.msgGone = false)
    (hnone : c.handler = .none) : { c with handler := .running }.Fine listed := by
  have hposted : c.posted = true := by
    by_contra hp
    rw [(h.failed (by simpa using hp)).1] at hreceived
    cases hreceived
  refine { h with
    received := fun _ hr => ?_
    handled := fun hp => ?_
    hasResult := fun _ => by simp
    result := fun v hv => ?_ }
  · cases hreceived.symm.trans hr
  · cases hposted.symm.trans hp
  · rcases h.result v hv with hv | hv
    · cases hnone.symm.trans hv
    · cases hgone.symm.trans hv.2

theorem handlerReturn (h : c.Fine listed) (hrunning : c.handler = .running) (res : ℤ) :
    { c with handler := .returned res }.Fine listed := by
  refine { h with
    received := fun hp hr => ?_
    handled := fun hp => ?_
    hasResult := fun _ => by simp
    result := fun v hv => ?_ }
  · cases hrunning.symm.trans (h.received hp hr).2.1
  · cases hrunning.symm.trans (h.handled hp)
  · rcases h.result v hv with hv | hv
    · cases hrunning.symm.trans hv
    · cases hrunning.symm.trans hv.1

theorem receive (h : c.Fine listed) (hipc : c.ipc = true) (hreceived : c.received = false)
    (bEvt : Bool) : (c.receive bEvt).Fine listed := by
  have hposted : c.posted = true := by
    by_contra hp
    rw [(h.failed (by simpa using hp)).2.1] at hipc
    cases hipc
  obtain ⟨hdone, -, -⟩ := h.received hposted hreceived
  have hinvoked : c.invoked = [] := by
    by_contra hne
    cases hdone.symm.trans (h.invoked hne).2.2.2
  have hsignals : c.evtSignals = 0 := by
    rw [h.signals, if_neg]
    simp [hdone]
  refine { h with
    signals := ?_
    invoked := fun hne => absurd hinvoked hne
    failed := fun hp => ?_
    received := fun _ hr => ?_
    inProcess := fun _ hp => ?_ }
  · exact hsignals.trans (if_neg fun hd => by cases hdone.symm.trans hd.1).symm
  · cases hposted.symm.trans hp
  · cases hr
  · cases hipc.symm.trans hp

/-- The receiver sets the event when it answers or deletes an unanswered message. -/
theorem signals_setEvent (h : c.Fine listed) (hdone : c.done = false) :
    c.invoked = [] ∧ c.setEvent.evtSignals = if c.rEvt = true then 1 else 0 := by
  have hinvoked : c.invoked = [] := by
    by_contra hne
    cases hdone.symm.trans (h.invoked hne).2.2.2
  have hsignals : c.evtSignals = 0 := by
    rw [h.signals, if_neg]
    simp [hdone]
  refine ⟨hinvoked, ?_⟩
  unfold setEvent
  split_ifs
  · rw [hsignals]
  · exact hsignals

theorem posted_of_not_done (h : c.Fine listed) (hdone : c.done = false) : c.posted = true := by
  by_contra hp
  cases hdone.symm.trans (h.failed (by simpa using hp)).2.2

theorem setResult (h : c.Fine listed) (hdone : c.done = false) (hhandler : c.handler ≠ .none)
    (res : ℤ) : (c.setResult res).Fine listed := by
  obtain ⟨hinvoked, hsignals⟩ := h.signals_setEvent hdone
  have hposted := h.posted_of_not_done hdone
  have hreturned : c.returned = false := by
    rw [← Bool.not_eq_true]
    exact fun hr => (h.returned hr).1 hinvoked
  have htask : (if c.ipc then c.task else c.task.touch) = c.task := by
    have hheld := h.held hposted
    rw [hreturned, if_neg Bool.false_ne_true] at hheld
    split_ifs with hipc
    · rfl
    · rw [if_neg hipc] at hheld
      exact hheld.touch_eq
  rw [setResult_eq, htask]
  refine { h with
    signals := ?_
    invoked := fun hne => absurd hinvoked hne
    failed := fun hp => ?_
    received := fun hp hr => ?_
    hasResult := fun _ => hhandler }
  · rw [hsignals]
    simp [done, hinvoked]
  · cases hposted.symm.trans hp
  · exact absurd (h.received hp hr).2.1 hhandler

theorem deleteMsg (h : c.Fine listed) (hreceived : c.received = true) (hgone : c.msgGone = false) :
    c.deleteMsg.Fine listed := by
  have hposted : c.posted = true := by
    by_contra hp
    rw [(h.failed (by simpa using hp)).1] at hreceived
    cases hreceived
  have hreturned : c.returned = false := by
    rw [← Bool.not_eq_true]
    intro hr
    cases hgone.symm.trans (h.returned hr).2.2
  rw [deleteMsg_eq]
  refine { h with
    signals := ?_
    invoked := fun hne => ?_
    returned := fun hr => ?_
    failed := fun hp => ?_
    received := fun _ hr => ?_
    inProcess := fun hp hipc => ?_
    result := fun v hv => (h.result v hv).imp_right fun hv => ⟨hv.1, rfl⟩ }
  · cases hres : c.hasResult with
    | true =>
      have hdone : c.done = true := by simp [done, hres]
      rw [if_pos rfl, h.signals, hdone]
      simp [done]
    | false =>
      have hdone : c.done = false := by simp [done, hres, hgone]
      obtain ⟨hinvoked, hsignals⟩ := h.signals_setEvent hdone
      rw [if_neg Bool.false_ne_true, hsignals]
      simp [done, hinvoked]
  · obtain ⟨-, hevt, hrEvt, -⟩ := h.invoked hne
    exact ⟨hposted, hevt, hrEvt, by simp [done]⟩
  · cases hreturned.symm.trans hr
  · cases hposted.symm.trans hp
  · cases hreceived.symm.trans hr
  · obtain ⟨-, hevt, hseg, hrefs⟩ := h.inProcess hp hipc
    refine ⟨hreceived, hevt, by simp [hseg], ?_⟩
    simp [hrefs, hevt, hgone, hreturned]

/-- `TestEvent` of a task in the list calls the callback if the event is set. -/
theorem testEvent (h : c.Fine True) (hevt : c.evt = true)
    (hres : 0 < c.evtSignals → c.handler = .none ∨ c.handler = .returned c.lResult) :
    c.testEvent.Fine True ∧ (0 < c.evtSignals → c.invoked = []) := by
  obtain ⟨hposted, hreturned⟩ := h.listed.1 trivial
  have htask : c.task.touch = c.task := by
    have hheld := h.held hposted
    rw [hreturned, if_neg Bool.false_ne_true] at hheld
    split_ifs at hheld <;> exact hheld.touch_eq
  unfold Call.testEvent
  rw [htask]
  split_ifs with hsignal
  · have hcond : c.done = true ∧ c.rEvt = true ∧ c.invoked = [] := by
      by_contra hne
      rw [h.signals, if_neg hne] at hsignal
      exact absurd hsignal (lt_irrefl 0)
    obtain ⟨hdone, hrEvt, hinvoked⟩ := hcond
    have hone : c.evtSignals = 1 := by rw [h.signals, if_pos ⟨hdone, hrEvt, hinvoked⟩]
    refine ⟨{ h with
      once := by simp [hinvoked]
      signals := by simp [hone]
      invoked := fun _ => ⟨hposted, hevt, hrEvt, hdone⟩
      returned := fun hr => by cases hreturned.symm.trans hr
      result := fun v hv => ?_
      passed := fun _ => by simp [hinvoked] }, fun _ => hinvoked⟩
    obtain rfl : v = c.lResult := by simpa [hinvoked] using hv
    rcases hres hsignal with hnone | hret
    · refine .inr ⟨hnone, ?_⟩
      cases hhas : c.hasResult with
      | true => exact absurd hnone (h.hasResult hhas)
      | false => simpa [done, hhas] using hdone
    · exact .inl hret
  · exact ⟨{ h with }, fun hlt => absurd hlt hsignal⟩

/-- The task of a call in the process is freed after its callback. -/
theorem finish (h : c.Fine True) (hinvoked : c.invoked ≠ []) (hipc : c.ipc = false)
    (hgone : c.msgGone = true) : c.finish.Fine False := by
  obtain ⟨hposted, hreturned⟩ := h.listed.1 trivial
  have hheld : c.task.Held 1 := by
    have := h.held hposted
    rwa [hreturned, hipc, if_neg Bool.false_ne_true, if_neg Bool.false_ne_true] at this
  have hreleased : c.task.release.Held 0 := hheld.release
  have hfreed : (decide (c.task.frees = 0) && decide (c.task.release.frees ≠ 0)) = true := by
    simp [hheld.alive, hreleased.frees]
  obtain ⟨hreceived, hrEvt, hseg, hrefs⟩ := h.inProcess hposted hipc
  unfold Call.finish
  rw [hfreed]
  refine { h with
    listed := by simp
    invoked := fun hne => h.invoked hne
    returned := fun _ => ⟨hinvoked, hipc, hgone⟩
    sound := hreleased.sound
    held := fun _ => hreleased
    inProcess := fun _ _ => ⟨hreceived, hrEvt, by simp [hseg, hipc], ?_⟩ }
  simp [hrefs, hreturned, hgone]

theorem freed (h : c.Fine listed) (hreturned : c.returned = true) :
    c.task.nRef = 0 ∧ c.evtRefs = 0 ∧ c.segRefs = 0 := by
  obtain ⟨hinvoked, hipc, hgone⟩ := h.returned hreturned
  obtain ⟨hposted, -, -, -⟩ := h.invoked hinvoked
  obtain ⟨-, -, hseg, hrefs⟩ := h.inProcess hposted hipc
  have hheld := h.held hposted
  rw [hreturned, if_pos rfl] at hheld
  exact ⟨hheld.nRef, by simp [hrefs, hreturned, hgone], hseg⟩

theorem of_freed (h : c.Fine True) (hinvoked : c.invoked ≠ [])
    (hfreed : c.finish.task.nRef = 0 ∧ c.finish.evtRefs = 0 ∧ c.finish.segRefs = 0) :
    c.ipc = false ∧ c.msgGone = true := by
  obtain ⟨hposted, hreturned⟩ := h.listed.1 trivial
  obtain ⟨-, hevt, -, -⟩ := h.invoked hinvoked
  have hheld := h.held hposted
  rw [hreturned, if_neg Bool.false_ne_true] at hheld
  have hipc : c.ipc = false := by
    rw [← Bool.not_eq_true]
    intro hipc
    rw [if_pos hipc] at hheld
    have hone : c.finish.task.nRef = 1 := hheld.release.nRef
    rw [hone] at hfreed
    exact absurd hfreed.1 one_ne_zero
  refine ⟨hipc, ?_⟩
  obtain ⟨-, -, -, hrefs⟩ := h.inProcess hposted hipc
  rw [← Bool.not_eq_false]
  intro hgone
  have hzero := hfreed.2.1
  unfold Call.finish at hzero
  simp only [hrefs, hevt, hreturned, hgone] at hzero
  split_ifs at hzero <;> simp at hzero

end Fine

end Call

/-- What does not change back in the course of a call. -/
structure Call.Later (c c' : Call) : Prop where
  posted : c'.posted = c.posted
  invoked : c.invoked ≠ [] → c'.invoked ≠ []
  done : c.done = true → c'.done = true ∧ c'.rEvt = c.rEvt

theorem Call.Later.refl (c : Call) : c.Later c := ⟨rfl, id, fun h => ⟨h, rfl⟩⟩

/-- What is known of a scan: its iterator and its task are in the list, and what it owes a callback
is still ahead. -/
structure Frame.Ok (f : Frame) (s : State) : Prop where
  it : ∀ i ∈ f.it, i ∈ s.tasks
  cur : ∀ i ∈ f.cur, i ∈ s.tasks ∧ (s.call i).invoked ≠ [] ∧ ∀ k ∈ f.it, i < k
  due : ∀ i, f.due i = true → i < s.n ∧ (s.call i).done = true ∧
    ((s.call i).posted = true → (s.call i).rEvt = true → (s.call i).invoked = [] →
      ∃ k ∈ f.it, k ≤ i)

theorem Frame.Ok.mono {f : Frame} {s s' : State} (h : f.Ok s)
    (htasks : ∀ i ∈ s.tasks, f.it = some i ∨ f.cur = some i → i ∈ s'.tasks) (hn : s.n ≤ s'.n)
    (hlt : ∀ i ∈ s.tasks, i < s.n) (hcall : ∀ i < s.n, (s.call i).Later (s'.call i)) : f.Ok s' := by
  refine ⟨fun i hi => htasks i (h.it i hi) (Or.inl hi), fun i hi => ?_, fun i hi => ?_⟩
  · obtain ⟨hmem, hinvoked, hit⟩ := h.cur i hi
    exact ⟨htasks i hmem (Or.inr hi), (hcall i (hlt i hmem)).invoked hinvoked, hit⟩
  · obtain ⟨hi', hdone, hahead⟩ := h.due i hi
    have hlater := hcall i hi'
    obtain ⟨hdone', hrEvt⟩ := hlater.done hdone
    refine ⟨lt_of_lt_of_le hi' hn, hdone', fun hp hr hnil => ?_⟩
    refine hahead (hlater.posted ▸ hp) (hrEvt ▸ hr) ?_
    by_contra hne
    exact hlater.invoked hne hnil

/-- What is known in an orderly run. -/
structure Inv (s : State) : Prop where
  fine : ∀ i, (s.call i).Fine (i ∈ s.tasks)
  /-- Nobody has used what is freed. -/
  alive : s.died = false
  /-- Tasks are in the order of the calls. -/
  sorted : s.tasks.Pairwise (· < ·)
  lt : ∀ i ∈ s.tasks, i < s.n
  frames : ∀ f ∈ s.frames, f.Ok s
  /-- The scans are at different tasks. -/
  distinct : (s.frames.filterMap Frame.cur).Nodup

theorem inv_init : Inv init where
  fine _ := (Call.fine_failed 0).congr (by simp [init])
  alive := rfl
  sorted := List.Pairwise.nil
  lt i hi := by cases hi
  frames f hf := by cases hf
  distinct := List.nodup_nil

namespace Inv

variable {s s' : State}

theorem delivered (hI : Inv s) : Delivered s where
  once i := (hI.fine i).once
  called i := (hI.fine i).passed
  alive := hI.alive
  result i := (hI.fine i).result
  traversal f hf := (hI.frames f hf).it
  unused i := (hI.fine i).sound
  freed i := (hI.fine i).freed

theorem set (hI : Inv s) {i : ℕ} {c : Call} (hfine : c.Fine (i ∈ s.tasks))
    (hlater : (s.call i).Later c) : Inv (s.set i c) := by
  have hcall : ∀ j, (s.call j).Later ((s.set i c).call j) := by
    intro j
    rcases eq_or_ne j i with rfl | hne
    · simpa [State.set] using hlater
    · simpa [State.set, hne] using Call.Later.refl _
  refine { hI with
    fine := fun j => ?_
    frames := fun f hf => (hI.frames f hf).mono (fun _ h _ => h) le_rfl hI.lt fun j _ => hcall j }
  rcases eq_or_ne j i with rfl | hne
  · simpa [State.set] using hfine
  · simpa [State.set, hne] using hI.fine j

theorem push (hI : Inv s) {c : Call} (hfine : c.Fine (c.posted = true)) : Inv (s.push c) := by
  have hold : ∀ j, j ≠ s.n → (s.push c).call j = s.call j := by
    intro j hne
    simp [State.push, hne]
  have hmem : ∀ j, j ≠ s.n → (j ∈ (s.push c).tasks ↔ j ∈ s.tasks) := by
    intro j hne
    unfold State.push
    split_ifs <;> simp [hne]
  have hnew : s.n ∈ (s.push c).tasks ↔ c.posted = true := by
    have hnot : s.n ∉ s.tasks := fun h => lt_irrefl _ (hI.lt _ h)
    unfold State.push
    split_ifs with hp <;> simp [hp, hnot]
  refine ⟨fun j => ?_, hI.alive, ?_, fun j hj => ?_, fun f hf => ?_, hI.distinct⟩
  · rcases eq_or_ne j s.n with rfl | hne
    · simpa [State.push] using hfine.congr hnew.symm
    · rw [hold j hne]
      exact (hI.fine j).congr (hmem j hne).symm
  · unfold State.push
    split_ifs
    · refine List.pairwise_append.2 ⟨hI.sorted, List.pairwise_singleton _ _, fun a ha b hb => ?_⟩
      obtain rfl := List.mem_singleton.1 hb
      exact hI.lt a ha
    · exact hI.sorted
  · rcases eq_or_ne j s.n with rfl | hne
    · exact Nat.lt_succ_self _
    · exact Nat.lt_succ_of_lt (hI.lt j ((hmem j hne).1 hj))
  · refine (hI.frames f hf).mono (fun j hj _ => ?_) (Nat.le_succ _) hI.lt fun j hj => ?_
    · exact (hmem j (ne_of_lt (hI.lt j hj))).2 hj
    · rw [hold j (ne_of_lt hj)]
      exact .refl _

theorem peekMsg (hI : Inv s) :
    Inv { s with frames := ⟨s.tasks.head?, none, s.due⟩ :: s.frames } := by
  refine { hI with frames := fun f hf => ?_, distinct := hI.distinct }
  rcases List.mem_cons.1 hf with rfl | hf
  · refine ⟨fun i hi => List.mem_of_mem_head? hi, by simp, fun i hi => ?_⟩
    simp only [State.due, Bool.and_eq_true, decide_eq_true_eq] at hi
    obtain ⟨hlt, -, hdone⟩ := hi
    refine ⟨hlt, hdone, fun hp _ hnil => ?_⟩
    have hreturned : (s.call i).returned = false := by
      rw [← Bool.not_eq_true]
      exact fun hr => ((hI.fine i).returned hr).1 hnil
    exact head?_spec hI.sorted ((hI.fine i).listed.2 ⟨hp, hreturned⟩)
  · obtain ⟨hit, hcur, hdue⟩ := hI.frames f hf
    exact ⟨hit, hcur, hdue⟩

/-- A scan tests the task at its iterator, and calls its callback or goes on. -/
theorem testEvent (hI : Inv s) {i : ℕ} {due : ℕ → Bool} {frames : List Frame}
    (hframes : s.frames = ⟨some i, none, due⟩ :: frames) (hevt : (s.call i).evt = true)
    (hres : 0 < (s.call i).evtSignals →
      (s.call i).handler = .none ∨ (s.call i).handler = .returned (s.call i).lResult) :
    Inv { s.set i (s.call i).testEvent with
      frames := ⟨nextOf s.tasks i, if 0 < (s.call i).evtSignals then some i else none, due⟩ ::
        frames } := by
  have hframe := hI.frames _ (by rw [hframes]; exact List.mem_cons_self)
  have hmem : i ∈ s.tasks := hframe.it i rfl
  obtain ⟨hnext, hleast⟩ := nextOf_spec hI.sorted hmem
  have hfine := (hI.fine i).congr (iff_true_intro hmem)
  obtain ⟨hfine', hnil⟩ := hfine.testEvent hevt hres
  have hlater : (s.call i).Later (s.call i).testEvent := by
    unfold Call.testEvent
    split_ifs
    · exact ⟨rfl, fun _ => by simp, fun h => ⟨h, rfl⟩⟩
    · exact ⟨rfl, id, fun h => ⟨h, rfl⟩⟩
  have hcalled : 0 < (s.call i).evtSignals → (s.call i).testEvent.invoked ≠ [] := by
    intro h
    rw [Call.testEvent, if_pos h]
    simp
  have hset := hI.set (hfine'.congr (iff_true_intro hmem).symm) hlater
  have hother : ∀ f ∈ frames, ∀ j ∈ f.cur, 0 < (s.call i).evtSignals → j ≠ i := by
    rintro f hf j hj h rfl
    exact ((hI.frames f (by rw [hframes]; exact List.mem_cons_of_mem _ hf)).cur j hj).2.1 (hnil h)
  refine { hset with frames := fun f hf => ?_, distinct := ?_ }
  · rcases List.mem_cons.1 hf with rfl | hf
    · have hframe' := hset.frames _ (by rw [State.set, hframes]; exact List.mem_cons_self)
      refine ⟨fun k hk => (hnext k hk).1, fun j hj => ?_, fun j hj => ?_⟩
      · split_ifs at hj with hsignal
        · obtain rfl := Option.some.inj hj
          refine ⟨hmem, ?_, fun k hk => (hnext k hk).2⟩
          simpa [State.set] using hcalled hsignal
        · cases hj
      · obtain ⟨hlt, hdone, hahead⟩ := hframe'.due j hj
        refine ⟨hlt, hdone, fun hp hr hempty => ?_⟩
        obtain ⟨k, hk, hle⟩ := hahead hp hr hempty
        obtain rfl := Option.some.inj hk
        have hj : j ∈ s.tasks := by
          refine (hset.fine j).listed.2 ⟨hp, ?_⟩
          rw [← Bool.not_eq_true]
          exact fun hret => ((hset.fine j).returned hret).1 hempty
        refine hleast j hj (lt_of_le_of_ne hle ?_)
        -- the task at the iterator had been called if it were due
        rintro rfl
        have hone := (hset.fine i).signals
        rw [if_pos ⟨hdone, hr, hempty⟩] at hone
        simp only [State.set, Function.update_self] at hone hempty
        have hzero : ¬ 0 < (s.call i).evtSignals := fun h => hcalled h hempty
        rw [Call.testEvent, if_neg hzero] at hone
        exact hzero (hone ▸ Nat.one_pos)
    · obtain ⟨hit, hcur, hdue⟩ :=
        hset.frames f (by rw [State.set, hframes]; exact List.mem_cons_of_mem _ hf)
      exact ⟨hit, hcur, hdue⟩
  · have hdistinct := hI.distinct
    rw [hframes] at hdistinct
    simp only [List.filterMap_cons_none] at hdistinct
    split_ifs with hsignal
    · refine List.nodup_cons.2 ⟨fun hin => ?_, hdistinct⟩
      obtain ⟨f, hf, hj⟩ := List.mem_filterMap.1 hin
      exact hother f hf i hj hsignal rfl
    · exact hdistinct

theorem callbackReturn (hI : Inv s) {i : ℕ} {it : Option ℕ} {due : ℕ → Bool} {frames : List Frame}
    (hframes : s.frames = ⟨it, some i, due⟩ :: frames) (hipc : (s.call i).ipc = false)
    (hgone : (s.call i).msgGone = true) (houter : ∀ g ∈ frames, g.it ≠ some i) :
    Inv { s.set i (s.call i).finish with
      tasks := s.tasks.erase i
      frames := ⟨it, none, due⟩ :: frames } := by
  have hframe := hI.frames _ (by rw [hframes]; exact List.mem_cons_self)
  obtain ⟨hmem, hinvoked, hit⟩ := hframe.cur i rfl
  have hnodup : s.tasks.Nodup := hI.sorted.imp ne_of_lt
  have hfine := (hI.fine i).congr (iff_true_intro hmem)
  have hfine' := hfine.finish hinvoked hipc hgone
  have hdistinct : i ∉ frames.filterMap Frame.cur ∧ (frames.filterMap Frame.cur).Nodup := by
    simpa [hframes] using hI.distinct
  have hcall : ∀ j, (s.call j).Later ((s.set i (s.call i).finish).call j) := by
    intro j
    rcases eq_or_ne j i with rfl | hne
    · have hlater : (s.call j).Later (s.call j).finish := ⟨rfl, id, fun h => ⟨h, rfl⟩⟩
      simpa [State.set] using hlater
    · simpa [State.set, hne] using Call.Later.refl _
  refine ⟨fun j => ?_, hI.alive, hI.sorted.sublist List.erase_sublist,
    fun j hj => hI.lt j (List.mem_of_mem_erase hj), fun f hf => ?_, hdistinct.2⟩
  · rcases eq_or_ne j i with rfl | hne
    · simpa [State.set, hnodup.mem_erase_iff] using hfine'
    · simpa [State.set, hne, hnodup.mem_erase_iff] using hI.fine j
  · have hstays : ∀ g : Frame, g.Ok s → g.it ≠ some i → g.cur ≠ some i → g.Ok
        { s.set i (s.call i).finish with
          tasks := s.tasks.erase i
          frames := ⟨it, none, due⟩ :: frames } := by
      intro g hg hgit hgcur
      refine hg.mono (fun j hj hor => (hnodup.mem_erase_iff).2 ⟨?_, hj⟩) le_rfl hI.lt
        fun j _ => hcall j
      rintro rfl
      exact hor.elim hgit hgcur
    rcases List.mem_cons.1 hf with rfl | hf
    · refine hstays _ ⟨hframe.it, by simp, hframe.due⟩ (fun h => ?_) (by simp)
      exact absurd (hit i h) (lt_irrefl i)
    · refine hstays f (hI.frames f (by rw [hframes]; exact List.mem_cons_of_mem _ hf))
        (houter f hf) fun h => hdistinct.1 (List.mem_filterMap.2 ⟨f, hf, h⟩)

theorem scanEnd (hI : Inv s) {due : ℕ → Bool} {frames : List Frame}
    (hframes : s.frames = ⟨none, none, due⟩ :: frames)
    (hdue : ∀ i, due i = true → (s.call i).posted = true ∧ (s.call i).rEvt = true) :
    Inv { s with
      call := fun i => { s.call i with passed := (s.call i).passed || due i }
      frames := frames } := by
  have hframe := hI.frames _ (by rw [hframes]; exact List.mem_cons_self)
  have hdistinct := hI.distinct
  rw [hframes] at hdistinct
  refine { hI with fine := fun i => ?_, frames := fun f hf => ?_, distinct := hdistinct }
  · have hfine := hI.fine i
    refine { hfine with passed := fun hpassed => ?_ }
    rcases Bool.or_eq_true_iff.1 hpassed with h | h
    · exact hfine.passed h
    · obtain ⟨-, -, hahead⟩ := hframe.due i h
      obtain ⟨hp, hr⟩ := hdue i h
      refine le_antisymm hfine.once (List.length_pos_iff.2 fun hnil => ?_)
      obtain ⟨k, hk, -⟩ := hahead hp hr hnil
      cases hk
  · obtain ⟨hit, hcur, hdue⟩ := hI.frames f (by rw [hframes]; exact List.mem_cons_of_mem _ hf)
    exact ⟨hit, hcur, hdue⟩

theorem step (hI : Inv s) {act : Act} (hgood : Orderly s act) (hn : step s act = some s') :
    Inv s' := by
  cases act with
  | send bEvt =>
    simp only [Callback.step, Option.ite_none_right_eq_some, Option.some.injEq] at hn
    obtain ⟨-, rfl⟩ := hn
    exact hI.push ((Call.fine_inProcess bEvt).congr (iff_true_intro rfl).symm)
  | sendIpc bWideChar bPosted bEvt =>
    simp only [Callback.step, Option.ite_none_right_eq_some, Option.some.injEq] at hn
    obtain ⟨-, rfl⟩ := hn
    exact hI.push (Call.fine_otherProcess bWideChar bPosted bEvt)
  | receive i bEvt =>
    simp only [Callback.step, Option.ite_none_right_eq_some, Option.some.injEq] at hn
    obtain ⟨⟨hipc, hreceived⟩, rfl⟩ := hn
    refine hI.set ((hI.fine i).receive hipc hreceived bEvt) ⟨rfl, id, fun hdone => ?_⟩
    have hposted : (s.call i).posted = true := by
      by_contra hp
      rw [((hI.fine i).failed (by simpa using hp)).2.1] at hipc
      cases hipc
    cases hdone.symm.trans ((hI.fine i).received hposted hreceived).1
  | dispatch i =>
    simp only [Callback.step, Option.ite_none_right_eq_some, Option.some.injEq] at hn
    obtain ⟨⟨hreceived, hgone, hnone⟩, rfl⟩ := hn
    exact hI.set ((hI.fine i).dispatch hreceived hgone hnone) ⟨rfl, id, fun h => ⟨h, rfl⟩⟩
  | handlerReturn i res =>
    simp only [Callback.step, Option.ite_none_right_eq_some, Option.some.injEq] at hn
    obtain ⟨hrunning, rfl⟩ := hn
    exact hI.set ((hI.fine i).handlerReturn hrunning res) ⟨rfl, id, fun h => ⟨h, rfl⟩⟩
  | setResult i res =>
    simp only [Callback.step, Option.ite_none_right_eq_some, Option.some.injEq] at hn
    obtain ⟨⟨hdone, hhandler⟩, rfl⟩ := hn
    refine hI.set ((hI.fine i).setResult hdone hhandler res) ?_
    rw [Call.setResult_eq]
    exact ⟨rfl, id, fun h => ⟨rfl, rfl⟩⟩
  | deleteMsg i =>
    simp only [Callback.step, Option.ite_none_right_eq_some, Option.some.injEq] at hn
    obtain ⟨⟨hreceived, hgone⟩, rfl⟩ := hn
    refine hI.set ((hI.fine i).deleteMsg hreceived hgone) ?_
    rw [Call.deleteMsg_eq]
    exact ⟨rfl, id, fun h => ⟨by simp [Call.done], rfl⟩⟩
  | peekMsg =>
    simp only [Callback.step, Option.ite_none_right_eq_some, Option.some.injEq] at hn
    obtain ⟨-, rfl⟩ := hn
    exact hI.peekMsg
  | testEvent =>
    simp only [Callback.step] at hn
    split at hn
    · next i due frames hframes =>
      obtain ⟨hevt, hres⟩ := hgood ⟨some i, none, due⟩ (by rw [hframes]; rfl) i rfl
      have hmem : i ∈ s.tasks :=
        (hI.frames _ (by rw [hframes]; exact List.mem_cons_self)).it i rfl
      rw [if_neg (not_not.2 hmem), if_pos hevt] at hn
      obtain rfl := Option.some.inj hn
      exact hI.testEvent hframes hevt hres
    · cases hn
  | callbackReturn =>
    simp only [Callback.step] at hn
    split at hn
    · next it i due frames hframes =>
      obtain ⟨hipc, hgone, houter⟩ := hgood ⟨it, some i, due⟩ (by rw [hframes]; rfl) i rfl
      rw [hframes] at houter
      obtain rfl := Option.some.inj hn
      exact hI.callbackReturn hframes hipc hgone houter
    · cases hn
  | scanEnd =>
    simp only [Callback.step] at hn
    split at hn
    · next due frames hframes =>
      obtain rfl := Option.some.inj hn
      exact hI.scanEnd hframes (hgood ⟨none, none, due⟩ (by rw [hframes]; rfl))
    · cases hn

/-- A step that is not orderly does what the property excludes. -/
theorem orderly (hI : Inv s) {act : Act} (hn : Callback.step s act = some s')
    (hd : Delivered s') : Orderly s act := by
  cases act with
  | testEvent =>
    intro f hf i hi
    simp only [Callback.step] at hn
    split at hn
    · next j due frames hframes =>
      rw [hframes, List.head?_cons, Option.mem_some_iff] at hf
      subst hf
      obtain rfl := Option.some.inj hi
      have hmem := (hI.frames _ (by rw [hframes]; exact List.mem_cons_self)).it j rfl
      rw [if_neg (not_not.2 hmem)] at hn
      by_cases hevt : (s.call j).evt = true
      · rw [if_pos hevt] at hn
        obtain rfl := Option.some.inj hn
        refine ⟨hevt, fun hsignal => ?_⟩
        have hresult := hd.result j (s.call j).lResult
        simp only [State.set, Function.update_self, Call.testEvent, if_pos hsignal] at hresult
        rcases hresult (by simp) with h | h
        · exact Or.inr h
        · exact Or.inl h.1
      · rw [if_neg hevt] at hn
        obtain rfl := Option.some.inj hn
        cases hd.alive
    · cases hn
  | callbackReturn =>
    intro f hf i hi
    simp only [Callback.step] at hn
    split at hn
    · next it j due frames hframes =>
      rw [hframes, List.head?_cons, Option.mem_some_iff] at hf
      subst hf
      obtain rfl := Option.some.inj hi
      obtain rfl := Option.some.inj hn
      obtain ⟨hmem, hinvoked, -⟩ :=
        (hI.frames _ (by rw [hframes]; exact List.mem_cons_self)).cur j rfl
      have hnodup : s.tasks.Nodup := hI.sorted.imp ne_of_lt
      have hfreed := hd.freed j
      simp only [State.set, Function.update_self] at hfreed
      obtain ⟨hipc, hgone⟩ :=
        ((hI.fine j).congr (iff_true_intro hmem)).of_freed hinvoked (hfreed rfl)
      refine ⟨hipc, hgone, fun g hg hit => ?_⟩
      rw [hframes, List.tail_cons] at hg
      have herased := hd.traversal g (List.mem_cons_of_mem _ hg) j hit
      exact (hnodup.mem_erase_iff.1 herased).1 rfl
    · cases hn
  | scanEnd =>
    intro f hf i hi
    simp only [Callback.step] at hn
    split at hn
    · next due frames hframes =>
      rw [hframes, List.head?_cons, Option.mem_some_iff] at hf
      subst hf
      obtain rfl := Option.some.inj hn
      have hone : (s.call i).invoked.length = 1 := 
        hd.called i (Bool.or_eq_true_iff.2 (Or.inr hi))
      have hinvoked : (s.call i).invoked ≠ [] := by
        intro hnil
        rw [hnil] at hone
        cases hone
      obtain ⟨hposted, -, hrEvt, -⟩ := (hI.fine i).invoked hinvoked
      exact ⟨hposted, hrEvt⟩
    · cases hn
  | send | sendIpc | receive | dispatch | handlerReturn | setResult | deleteMsg | peekMsg => trivial

end Inv

/-- **`SendMessageCallback`**: the calls of a run are delivered in all its states if and only if its
steps are orderly. -/
theorem calls_delivered_iff (acts : List Act) :
    lts.AllStates Delivered init acts ↔ lts.AllSteps Orderly init acts := by
  refine LTS.allStates_iff_allSteps (I := Inv) (fun _ hI => hI.delivered) ?_ ?_ inv_init
  · intro s act s' hI hgood hn
    have hstep : next s act = some s' := hn
    rw [next, hI.alive] at hstep
    exact hI.step hgood hstep
  · intro s act s' hI hn hd
    have hstep : next s act = some s' := hn
    rw [next, hI.alive] at hstep
    exact hI.orderly hstep hd

/-- Two messages are handled; the callback of the first pumps messages, and the peek in it calls
the callback of the second. -/
def pumpInCallback : List Act :=
  [.send true, .send true, .dispatch 0, .handlerReturn 0 5, .setResult 0 5, .deleteMsg 0,
    .dispatch 1, .handlerReturn 1 6, .setResult 1 6, .deleteMsg 1, .peekMsg, .testEvent, .peekMsg,
    .testEvent, .testEvent, .callbackReturn, .scanEnd, .callbackReturn]

/-- The outer scan goes on with the element that the inner one has erased. -/
theorem erased_in_callback : ∃ s, lts.run init pumpInCallback = some s ∧
    s.frames.map (fun f => (f.it, f.cur)) = [(some 1, none)] ∧ s.tasks = [] ∧ ¬ Delivered s := by
  refine ⟨_, rfl, by decide, by decide, fun h => ?_⟩
  exact absurd (h.traversal _ List.mem_cons_self 1 rfl) (by decide)

end Callback

end Swinx
