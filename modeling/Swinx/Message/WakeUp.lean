import Mathlib.Logic.Function.Basic
import Swinx.LTS.Basic
import Swinx.Message.Queue

/-!
# Waking up a UI thread

Two queues wake up a UI thread: the reader thread appends the events of the server to `m_evtQueue`,
other threads append messages to `m_msgQueue`, and both set the auto-reset event `m_evtSync`, under
the mutex of the queue.  The UI thread takes the signal in three places: at the beginning of
`peekMsg`, in `waitMsg`, and in the `WaitForMultipleObjects` of `_waitMutliObjectAndMsg`, which
takes the signals of all objects that it finds signalled and reports the first one.

Only where it takes the signal of `m_evtSync` and nothing else does it go on to the events.

* `woken_of_orderly` — in runs of such waits no wake-up is lost.
* `overslept` — a wait for an object that takes the signal too.
-/

namespace Swinx

namespace WakeUp

open Message

/-! ### Waiting for several objects -/

/-- A call of `WaitForMultipleObjects` for any of the handles, `m_evtSync` behind them. -/
structure Multi where
  /-- `none` is `INVALID_HANDLE_VALUE`. -/
  handles : List (Option ℕ)
  /-- The `states` of the handles. -/
  states : List Bool
  /-- The state of `m_evtSync`. -/
  seen : Bool
  /-- `select` has found nothing in time. -/
  timedOut : Bool
  /-- `select` has failed. -/
  failed : Bool
  deriving DecidableEq, Repr

/-- A new call; an invalid handle counts as signalled. -/
def Multi.new (handles : List (Option ℕ)) : Multi :=
  ⟨handles, handles.map Option.isNone, false, false, false⟩

/-- `select` finds a handle signalled that was not known to be so. -/
def Multi.finds (m : Multi) (signalled : Bool) (ready : ℕ → Bool) : Bool :=
  !m.seen && signalled || (m.handles.zip m.states).any fun p => !p.2 && p.1.any ready

/-- `selectfds` returns a positive number. -/
def Multi.select (m : Multi) (signalled : Bool) (ready : ℕ → Bool) : Multi :=
  { m with
    states := (m.handles.zip m.states).map fun p => p.2 || p.1.any ready
    seen := m.seen || signalled }

/-- `onWaitDone` of the handles that are in state `true`, up to the first that fails, which is put
into state `false`: what is signalled afterwards, and the states if one has failed. -/
def Multi.take (manual : ℕ → Bool) :
    (ℕ → Bool) → List (Option ℕ) → List Bool → (ℕ → Bool) × Option (List Bool)
  | ready, h :: handles, st :: states =>
    let kept := fun p : (ℕ → Bool) × Option (List Bool) => (p.1, p.2.map (st :: ·))
    match st, h with
    | true, some h =>
      if ready h = true then
        let ready := if manual h then ready else Function.update ready h false
        kept (Multi.take manual ready handles states)
      else (ready, some (false :: states))
    | _, _ => kept (Multi.take manual ready handles states)
  | ready, _, _ => (ready, none)

/-! ### The threads -/

/-- A call of `peekMsg`, by the program or by `getMsg`. -/
structure Peek where
  filter : Filter
  remove : Bool
  fromGetMsg : Bool
  deriving DecidableEq, Repr

/-- Who has called `event2Msg`. -/
inductive Caller
  | peek (p : Peek)
  /-- `waitMsg`, in `getMsg` with this filter or in `waitMutliObjectAndMsg`. -/
  | wait (getMsg : Option Filter)
  | multi (handles : List (Option ℕ))
  deriving DecidableEq, Repr

/-- Where the UI thread is. -/
inductive Pc
  /-- In the code of the program. -/
  | user
  /-- At the beginning of `peekMsg`. -/
  | peeking (p : Peek)
  /-- In `event2Msg`, before the events. -/
  | event2Msg (bTimeout : Bool) (caller : Caller)
  /-- In `event2Msg`, before the timers. -/
  | timers (caller : Caller)
  /-- In `peekMsg`, before the loop over the queue. -/
  | scanning (p : Peek)
  /-- In the wait of `waitMsg`. -/
  | waiting (getMsg : Option Filter)
  /-- In `WaitForMultipleObjects`, before `selectfds`. -/
  | selecting (m : Multi)
  /-- In `WaitForMultipleObjects`, before the second pass. -/
  | taking (m : Multi)
  deriving DecidableEq, Repr

/-- The wait for several objects that is about to take their signals. -/
def Pc.multi : Pc → Option Multi
  | .taking m => some m
  | _ => none

/-- A connection and the objects that its thread waits for. -/
structure State where
  /-- `m_evtSync` -/
  signalled : Bool
  m_evtQueue : List ℕ
  m_msgQueue : List Msg
  /-- The objects that are signalled. -/
  ready : ℕ → Bool
  /-- The objects that stay so when a wait takes them. -/
  manual : ℕ → Bool
  pc : Pc
  /-- The calls of `peekMsg` in which the callback of a timer runs. -/
  stack : List Peek

/-- Nothing has happened. -/
def init (manual : ℕ → Bool) : State := ⟨false, [], [], fun _ => false, manual, .user, []⟩

/-- What the threads do. -/
inductive Act
  /-- The reader thread appends an event. -/
  | event (e : ℕ)
  /-- `postMsg`, by any thread -/
  | post (m : Msg)
  /-- Another thread sets or resets an object, or takes its signal. -/
  | setReady (h : ℕ) (signalled : Bool)
  /-- Messages are deleted from the queue. -/
  | erase (ids : List ℕ)
  /-- `m_evtSync` is set without need. -/
  | setEvent
  | peekMsg (filter : Filter) (remove : Bool)
  | getMsg (filter : Filter)
  | msgWait (handles : List (Option ℕ))
  /-- `waitMsg`, for messages only -/
  | waitMsg
  /-- The test of `m_evtSync` in `peekMsg`. -/
  | test
  /-- The events of the queue are made into messages, after which these are queued. -/
  | pushEvents (queue : List Msg)
  /-- The timers that are due queue their messages; `_waitMutliObjectAndMsg` then goes on, or
  returns. -/
  | pushTimers (msgs : List Msg) (again : Bool)
  /-- The loop over the queue; these windows are gone. -/
  | scan (gone : List ℕ)
  /-- The callback of a timer returns. -/
  | callbackReturns
  /-- The wait of `waitMsg` or `selectfds` ends. -/
  | wake
  | timeOut
  /-- `select` fails, with another error than `EINTR`. -/
  | selectFails
  /-- The second pass of `WaitForMultipleObjects`, and whether the time is over then. -/
  | take (late : Bool)
  deriving DecidableEq, Repr

namespace State

/-- What comes after `event2Msg`. -/
def goOn (s : State) (again : Bool) : Caller → State
  | .peek p => { s with pc := .scanning p }
  | .wait (some f) => { s with pc := .peeking ⟨f, true, true⟩ }
  | .wait none => { s with pc := .user }
  | .multi handles => { s with pc := if again then .selecting (.new handles) else .user }

/-- The loop of `peekMsg` and what comes after it. -/
def scanQueue (s : State) (gone : List ℕ) (p : Peek) : State :=
  let r := scan (fun hwnd => hwnd ∈ gone) p.filter s.m_msgQueue
  match r.found with
  | none =>
    { s with
      m_msgQueue := r.passed ++ r.rest
      pc := if p.fromGetMsg then .waiting (some p.filter) else .user }
  | some m =>
    if m.message = WM_TIMER ∧ m.lParam ≠ 0 then
      { s with
        m_msgQueue := r.passed ++ r.rest
        pc := .user
        stack := p :: s.stack }
    else if m.message = WM_TIMER ∧ m.wParam = TM_DELAY then
      { s with
        m_msgQueue := (r.passed ++ r.rest).filter fun k =>
          ¬ (k.hwnd = m.hwnd ∧ k.message = WM_TIMER ∧ k.wParam = m.wParam)
        pc := .peeking p }
    else
      let queue := if p.remove then r.passed ++ r.rest else r.passed ++ m :: r.rest
      { s with
        m_msgQueue := queue
        signalled := s.signalled || !queue.isEmpty
        pc := .user }

/-- The second pass of `WaitForMultipleObjects`; its return.  After an error the objects that were
found before are taken too, and the error is returned. -/
def takeAll (s : State) (m : Multi) (late : Bool) : State :=
  match Multi.take s.manual s.ready m.handles m.states with
  | (ready, some states) =>
    if m.timedOut || late then { s with ready, pc := .event2Msg true (.multi m.handles) }
    else { s with ready, pc := .selecting { m with states, failed := false } }
  | (ready, none) =>
    let s := { s with ready, signalled := s.signalled && !m.seen }
    if m.timedOut then { s with pc := .event2Msg true (.multi m.handles) }
    else if m.failed || m.states.any id then { s with pc := .user }
    else { s with pc := .event2Msg false (.multi m.handles) }

end State

/-- One step. -/
def next (s : State) : Act → Option State
  | .event e => some { s with m_evtQueue := s.m_evtQueue ++ [e], signalled := true }
  | .post m => some { s with m_msgQueue := s.m_msgQueue ++ [m], signalled := true }
  | .setReady h signalled => some { s with ready := Function.update s.ready h signalled }
  | .erase ids => some { s with m_msgQueue := s.m_msgQueue.filter fun m => m.id ∉ ids }
  | .setEvent => some { s with signalled := true }
  | .peekMsg filter remove =>
    if s.pc = .user then some { s with pc := .peeking ⟨filter, remove, false⟩ } else none
  | .getMsg filter =>
    if s.pc = .user then some { s with pc := .peeking ⟨filter, true, true⟩ } else none
  | .msgWait handles =>
    if s.pc = .user then some { s with pc := .selecting (.new handles) } else none
  | .waitMsg => if s.pc = .user then some { s with pc := .waiting none } else none
  | .test =>
    match s.pc with
    | .peeking p => some { s with signalled := false, pc := .event2Msg (!s.signalled) (.peek p) }
    | _ => none
  | .pushEvents queue =>
    match s.pc with
    | .event2Msg true caller => some { s with pc := .timers caller }
    | .event2Msg false caller =>
      some { s with m_evtQueue := [], m_msgQueue := queue, pc := .timers caller }
    | _ => none
  | .pushTimers msgs again =>
    match s.pc with
    | .timers caller => some ({ s with m_msgQueue := s.m_msgQueue ++ msgs }.goOn again caller)
    | _ => none
  | .scan gone =>
    match s.pc with
    | .scanning p => some (s.scanQueue gone p)
    | _ => none
  | .callbackReturns =>
    match s.pc, s.stack with
    | .user, p :: stack => some { s with pc := .peeking p, stack }
    | _, _ => none
  | .wake =>
    match s.pc with
    | .waiting getMsg =>
      if s.signalled then some { s with signalled := false, pc := .event2Msg false (.wait getMsg) }
      else none
    | .selecting m =>
      if m.finds s.signalled s.ready then
        some { s with pc := .taking (m.select s.signalled s.ready) }
      else none
    | _ => none
  | .timeOut =>
    match s.pc with
    | .waiting getMsg => some { s with pc := .event2Msg true (.wait getMsg) }
    | .selecting m =>
      if m.finds s.signalled s.ready then none
      else some { s with pc := .taking { m with timedOut := true } }
    | _ => none
  | .selectFails =>
    match s.pc with
    | .waiting getMsg => some { s with pc := .event2Msg false (.wait getMsg) }
    | .selecting m => some { s with pc := .taking { m with failed := true } }
    | _ => none
  | .take late =>
    match s.pc with
    | .taking m => some (s.takeAll m late)
    | _ => none

/-- The program. -/
def lts : LTS State Act := ⟨next⟩

/-- **No lost wake-up**: the thread is not blocked in `getMsg` without a filter while something is
queued. -/
def Sound (s : State) : Prop :=
  s.pc = .waiting (some ⟨0, 0, 0⟩) → s.signalled = false → s.m_evtQueue = [] ∧ s.m_msgQueue = []

/-- The wait does not report `m_evtSync` when it takes the signals. -/
def Multi.ReportsOther (m : Multi) : Prop :=
  m.timedOut = true ∨ m.failed = true ∨ m.states.any id = true

instance decidableReportsOther (m : Multi) : Decidable m.ReportsOther :=
  inferInstanceAs (Decidable (_ ∨ _))

/-- **The steps after which none is lost**: when a wait for several objects takes the signal of
`m_evtSync` and reports something else, there are no events. -/
def Orderly (s : State) : Act → Prop
  | .take _ => ∀ m ∈ s.pc.multi, m.seen = true → m.ReportsOther → s.m_evtQueue = []
  | _ => True

instance decidableOrderly (s : State) (act : Act) : Decidable (Orderly s act) := by
  cases act <;> unfold Orderly <;> infer_instance

/-- The thread will look at the events. -/
def Pc.Drains : Pc → Prop
  | .event2Msg false _ => True
  | _ => False

/-- **The invariant of the orderly runs.** -/
structure Inv (s : State) : Prop where
  events : s.signalled = false → s.m_evtQueue = [] ∨ s.pc.Drains
  messages : s.pc = .waiting (some ⟨0, 0, 0⟩) → s.signalled = false → s.m_msgQueue = []

theorem inv_init (manual : ℕ → Bool) : Inv (init manual) := ⟨fun _ => .inl rfl, fun _ _ => rfl⟩

theorem Inv.sound {s : State} (hI : Inv s) : Sound s := fun hpc hsignalled =>
  ⟨(hI.events hsignalled).resolve_right (by simp [hpc, Pc.Drains]), hI.messages hpc hsignalled⟩

variable {s s' : State}

theorem inv_of_signalled (h : s.signalled = true) : Inv s :=
  ⟨fun h' => absurd (h.symm.trans h') (by simp), fun _ h' => absurd (h.symm.trans h') (by simp)⟩

/-- The thread has gone on without taking the signal, and does not wait in `getMsg`. -/
theorem Inv.moved (hI : Inv s) (hpc : ¬ s.pc.Drains) (hsignalled : s'.signalled = s.signalled)
    (hevents : s'.m_evtQueue = s.m_evtQueue) (hwaits : ∀ f, s'.pc ≠ .waiting (some f)) : Inv s' :=
  ⟨fun h => .inl (hevents.trans ((hI.events (hsignalled.symm.trans h)).resolve_right hpc)),
    fun h => absurd h (hwaits _)⟩

theorem Inv.scanQueue (hI : Inv s) {p : Peek} (hpc : s.pc = .scanning p) (gone : List ℕ) :
    Inv (s.scanQueue gone p) := by
  have hdrains : ¬ s.pc.Drains := by simp [hpc, Pc.Drains]
  unfold State.scanQueue
  cases hfound : (scan (fun hwnd => decide (hwnd ∈ gone)) p.filter s.m_msgQueue).found with
  | none =>
    obtain ⟨hrest, hpassed⟩ := scan_none hfound
    simp only [hfound]
    refine ⟨fun h => .inl ((hI.events h).resolve_right hdrains), fun h _ => ?_⟩
    split_ifs at h
    have hfilter : p.filter = ⟨0, 0, 0⟩ := Option.some.inj (Pc.waiting.inj h)
    rw [hfilter] at hpassed hrest ⊢
    rw [hrest, List.append_nil]
    refine List.eq_nil_iff_forall_not_mem.2 fun m hm => ?_
    exact absurd ((accepts_all m.toFields).symm.trans (hpassed m hm)) (by simp)
  | some m =>
    simp only [hfound]
    split_ifs
    · exact hI.moved hdrains rfl rfl (by simp)
    · exact hI.moved hdrains rfl rfl (by simp)
    · refine ⟨fun h => .inl ((hI.events (Bool.or_eq_false_iff.1 h).1).resolve_right hdrains),
        fun h => nomatch h⟩
    · refine ⟨fun h => .inl ((hI.events (Bool.or_eq_false_iff.1 h).1).resolve_right hdrains),
        fun h => nomatch h⟩

theorem Inv.takeAll (hI : Inv s) {m : Multi} (hpc : s.pc = .taking m)
    (ho : m.seen = true → m.ReportsOther → s.m_evtQueue = []) (late : Bool) :
    Inv (s.takeAll m late) := by
  have hdrains : ¬ s.pc.Drains := by simp [hpc, Pc.Drains]
  have hevents : m.ReportsOther → (s.signalled && !m.seen) = false → s.m_evtQueue = [] := by
    intro hother h
    by_cases hseen : m.seen = true
    · exact ho hseen hother
    · rw [Bool.not_eq_true] at hseen
      rw [hseen, Bool.not_false, Bool.and_true] at h
      exact (hI.events h).resolve_right hdrains
  unfold State.takeAll
  split
  · split_ifs
    · exact hI.moved hdrains rfl rfl (by simp)
    · exact hI.moved hdrains rfl rfl (by simp)
  · dsimp only
    split_ifs with htime hany
    · exact ⟨fun h => .inl (hevents (.inl htime) h), fun h => nomatch h⟩
    · exact ⟨fun h => .inl (hevents (.inr (Bool.or_eq_true_iff.1 hany)) h), fun h => nomatch h⟩
    · exact ⟨fun _ => .inr trivial, fun h => nomatch h⟩

theorem Inv.next (hI : Inv s) {act : Act} (ho : Orderly s act) (h : next s act = some s') :
    Inv s' := by
  cases act with
  | event e => exact Option.some.inj h ▸ inv_of_signalled rfl
  | post m => exact Option.some.inj h ▸ inv_of_signalled rfl
  | setEvent => exact Option.some.inj h ▸ inv_of_signalled rfl
  | setReady i signalled => exact Option.some.inj h ▸ ⟨hI.events, hI.messages⟩
  | erase ids =>
    refine Option.some.inj h ▸ ⟨hI.events, fun hpc hs => ?_⟩
    have hempty : s.m_msgQueue = [] := hI.messages hpc hs
    simp only [hempty, List.filter_nil]
  | peekMsg filter remove =>
    simp only [WakeUp.next, Option.ite_none_right_eq_some] at h
    exact Option.some.inj h.2 ▸ hI.moved (by simp [h.1, Pc.Drains]) rfl rfl (by simp)
  | getMsg filter =>
    simp only [WakeUp.next, Option.ite_none_right_eq_some] at h
    exact Option.some.inj h.2 ▸ hI.moved (by simp [h.1, Pc.Drains]) rfl rfl (by simp)
  | msgWait handles =>
    simp only [WakeUp.next, Option.ite_none_right_eq_some] at h
    exact Option.some.inj h.2 ▸ hI.moved (by simp [h.1, Pc.Drains]) rfl rfl (by simp)
  | waitMsg =>
    simp only [WakeUp.next, Option.ite_none_right_eq_some] at h
    exact Option.some.inj h.2 ▸ hI.moved (by simp [h.1, Pc.Drains]) rfl rfl (by simp)
  | test =>
    simp only [WakeUp.next] at h
    split at h
    case h_2 => cases h
    case h_1 p hpc =>
      refine Option.some.inj h ▸ ⟨fun _ => ?_, fun h => nomatch h⟩
      cases hs : s.signalled with
      | true => exact .inr trivial
      | false => exact .inl ((hI.events hs).resolve_right (by simp [hpc, Pc.Drains]))
  | pushEvents queue =>
    simp only [WakeUp.next] at h
    split at h
    case h_1 caller hpc =>
      exact Option.some.inj h ▸ hI.moved (by simp [hpc, Pc.Drains]) rfl rfl (by simp)
    case h_2 caller hpc => exact Option.some.inj h ▸ ⟨fun _ => .inl rfl, fun h => nomatch h⟩
    case h_3 => cases h
  | pushTimers msgs again =>
    simp only [WakeUp.next] at h
    split at h
    case h_2 => cases h
    case h_1 caller hpc =>
      have hdrains : ¬ s.pc.Drains := by simp [hpc, Pc.Drains]
      refine Option.some.inj h ▸ ?_
      rcases caller with p | (_ | f) | handles
      · exact hI.moved hdrains rfl rfl (by simp [State.goOn])
      · exact hI.moved hdrains rfl rfl (by simp [State.goOn])
      · exact hI.moved hdrains rfl rfl (by simp [State.goOn])
      · refine hI.moved hdrains rfl rfl fun f => ?_
        unfold State.goOn
        cases again <;> simp
  | scan gone =>
    simp only [WakeUp.next] at h
    split at h
    case h_2 => cases h
    case h_1 p hpc => exact Option.some.inj h ▸ hI.scanQueue hpc gone
  | callbackReturns =>
    simp only [WakeUp.next] at h
    split at h
    case h_2 => cases h
    case h_1 p stack hpc hstack =>
      exact Option.some.inj h ▸ hI.moved (by simp [hpc, Pc.Drains]) rfl rfl (by simp)
  | wake =>
    simp only [WakeUp.next] at h
    split at h
    case h_1 getMsg hpc =>
      split_ifs at h
      exact Option.some.inj h ▸ ⟨fun _ => .inr trivial, fun h => nomatch h⟩
    case h_2 m hpc =>
      split_ifs at h
      exact Option.some.inj h ▸ hI.moved (by simp [hpc, Pc.Drains]) rfl rfl (by simp)
    case h_3 => cases h
  | timeOut =>
    simp only [WakeUp.next] at h
    split at h
    case h_1 getMsg hpc =>
      exact Option.some.inj h ▸ hI.moved (by simp [hpc, Pc.Drains]) rfl rfl (by simp)
    case h_2 m hpc =>
      split_ifs at h
      exact Option.some.inj h ▸ hI.moved (by simp [hpc, Pc.Drains]) rfl rfl (by simp)
    case h_3 => cases h
  | selectFails =>
    simp only [WakeUp.next] at h
    split at h
    case h_1 getMsg hpc => exact Option.some.inj h ▸ ⟨fun _ => .inr trivial, fun h => nomatch h⟩
    case h_2 m hpc =>
      exact Option.some.inj h ▸ hI.moved (by simp [hpc, Pc.Drains]) rfl rfl (by simp)
    case h_3 => cases h
  | take late =>
    simp only [WakeUp.next] at h
    split at h
    case h_2 => cases h
    case h_1 m hpc =>
      exact Option.some.inj h ▸ hI.takeAll hpc (ho m (by rw [hpc]; rfl)) late

/-- **No wake-up is lost** in orderly runs. -/
theorem woken_of_orderly (manual : ℕ → Bool) (acts : List Act)
    (h : lts.AllSteps Orderly (init manual) acts) : lts.AllStates Sound (init manual) acts :=
  LTS.allStates_of_allSteps (I := Inv) (fun _ hI => hI.sound) (fun _ _ _ hI ho hn => hI.next ho hn)
    (inv_init manual) h

/-- A wait for an object, which another thread sets while a message is posted, and `getMsg`. -/
def sampleActs : List Act :=
  [.msgWait [some 5], .setReady 5 true, .post ⟨⟨9, 0x0201, 0, 0⟩, 1⟩, .wake, .take false,
    .getMsg ⟨0, 0, 0⟩, .test, .pushEvents [], .pushTimers [] false, .scan [],
    .getMsg ⟨0, 0, 0⟩, .test, .pushEvents [], .pushTimers [] false, .scan [], .event 7]

theorem woken_sample : lts.AllStates Sound (init fun _ => false) sampleActs :=
  woken_of_orderly (fun _ => false) sampleActs (by decide)

/-- The same with an event of the server in place of the message. -/
def oversleepingActs : List Act :=
  [.msgWait [some 5], .setReady 5 true, .event 7, .wake, .take false, .getMsg ⟨0, 0, 0⟩, .test,
    .pushEvents [], .pushTimers [] false, .scan []]

/-- **A lost wake-up**: the wait reports the object and has taken the signal for the event, so that
`getMsg` does not look at the events and blocks. -/
theorem overslept : ∃ s, lts.run (init fun _ => false) oversleepingActs = some s ∧
    s.pc = .waiting (some ⟨0, 0, 0⟩) ∧ s.signalled = false ∧ s.m_evtQueue = [7] ∧ ¬ Sound s := by
  refine ⟨_, rfl, rfl, rfl, rfl, fun h => ?_⟩
  exact absurd (h rfl rfl).1 (by decide)

end WakeUp

end Swinx
