import Swinx.Sync.WaitMultiple

/-!
# Waiting for objects and messages

`waitMutliObjectAndMsg` adds the event `m_evtSync` to the handles and waits for any of them, in
`_waitMutliObjectAndMsg`, whose rounds call `WaitForMultipleObjects`.  With `fWaitAll` it does so
again and again: each handle that is reported is replaced by `INVALID_HANDLE_VALUE` and counted, a
message is noted, and the call succeeds when all handles are counted and a message has come.

The model has one thread in these calls, on top of the system of objects and threads in which
`WaitForMultipleObjects` takes its steps; the other threads do anything.

* `atomic_of_careful` — calls are atomic in every run whose steps are careful.
-/

namespace Swinx

namespace MsgWait

open Sync

/-- `QS_ALLINPUT` -/
def QS_ALLINPUT : ℕ := 0x04FF

/-- Progress inside `waitMutliObjectAndMsg`. -/
inductive PC
  /-- At the head of its loop. -/
  | outer
  /-- At the head of the loop of `_waitMutliObjectAndMsg`. -/
  | round
  /-- In `WaitForMultipleObjects`. -/
  | waiting
  /-- `WaitForMultipleObjects` has returned. -/
  | waited (m : Multi)
  /-- About to call `waitMsg`. -/
  | msgOnly
  /-- In the `WaitForSingleObject` of `waitMsg`. -/
  | msgWaiting

/-- The `WaitForMultipleObjects` that has just returned. -/
def PC.result : PC → Option Multi
  | .waited m => some m
  | _ => none

/-- A call of `waitMutliObjectAndMsg`. -/
structure Call where
  handles : List ObjId
  /-- `to` -/
  timeOut : ℕ
  fWaitAll : Bool
  dwWaitMask : ℕ
  /-- Without the last entry, which is `m_evtSync`; `none` is `INVALID_HANDLE_VALUE`. -/
  hs : List (Option ObjId)
  /-- How many handles are signalled. -/
  nSignals : ℕ
  /-- Is there a message? -/
  hasMsg : Bool
  /-- `to` of `_waitMutliObjectAndMsg`. -/
  left : ℕ
  /-- The time before the wait. -/
  ts1 : ℕ
  ret : ℕ
  /-- Ghost: the time-outs with which `_waitMutliObjectAndMsg` has been called. -/
  timeOuts : List ℕ
  /-- Ghost: how often the entry was acquired. -/
  acquired : ℕ → ℕ
  /-- Ghost: the call has changed the bytes or the data of the entry's object. -/
  touched : ℕ → Bool
  pc : PC

namespace Call

/-- `nCount` -/
def nCount (c : Call) : ℕ := c.handles.length

/-- A call that starts. -/
def init (handles : List ObjId) (timeOut : ℕ) (fWaitAll : Bool) (dwWaitMask : ℕ) : Call where
  handles := handles
  timeOut := timeOut
  fWaitAll := fWaitAll
  dwWaitMask := dwWaitMask
  hs := handles.map some
  nSignals := 0
  hasMsg := false
  left := 0
  ts1 := 0
  ret := 0
  timeOuts := []
  acquired := fun _ => 0
  touched := fun _ => false
  pc :=
    if handles.length = 0 ∧ dwWaitMask &&& QS_ALLINPUT = QS_ALLINPUT then .msgOnly else .outer

/-- The call goes on, or returns `ret`. -/
inductive Res
  | more (c : Call)
  | ret (c : Call)

/-- What `_waitMutliObjectAndMsg` makes of the result `m.nRet` of a round that began at `ts1` and
ended at `ts2`: another round, with what is left of the time, or a result. -/
def innerResult (c : Call) (m : Multi) (ts2 : ℕ) (bStatus bQuit : Bool) : ℕ ⊕ ℕ :=
  if m.nRet = WAIT_TIMEOUT ∨ m.nRet = WAIT_OBJECT_0 + c.nCount then
    if bQuit then .inr WAIT_FAILED
    else if c.dwWaitMask ≠ 0 ∧ bStatus = true then .inr (WAIT_OBJECT_0 + c.nCount)
    else if c.left = INFINITE then .inl c.left
    else
      let elapse := (ts2 - c.ts1) % 2 ^ 32
      if c.left ≤ elapse then .inr WAIT_TIMEOUT else .inl (c.left - elapse)
  else .inr m.nRet

/-- A message is noted, a handle is replaced and counted. -/
def counted (c : Call) (ret : ℕ) : Call :=
  if ret = WAIT_OBJECT_0 + c.nCount then { c with hasMsg := true }
  else { c with hs := c.hs.set (ret - WAIT_OBJECT_0) none, nSignals := c.nSignals + 1 }

/-- The test at the end of the loop of `waitMutliObjectAndMsg`. -/
def test (c : Call) : Res :=
  if c.nSignals = c.nCount ∧ c.hasMsg = true then .ret { c with ret := WAIT_OBJECT_0 }
  else .more { c with pc := .outer }

/-- The rest of the loop of `waitMutliObjectAndMsg`, after `_waitMutliObjectAndMsg` has returned. -/
def afterInner (c : Call) (ret : ℕ) : Res :=
  if c.fWaitAll = false ∨ ret = WAIT_TIMEOUT ∨ ret = WAIT_FAILED then .ret { c with ret }
  else (c.counted ret).test

/-- The account of the call after a round. -/
def account (c : Call) (m : Multi) : Call :=
  { c with
    acquired := fun j => c.acquired j + m.acquired j
    touched := fun j => c.touched j || m.touched j }

/-- A round is over. -/
def afterRound (c : Call) (m : Multi) (ts2 : ℕ) (bStatus bQuit : Bool) : Res :=
  match c.innerResult m ts2 bStatus bQuit with
  | .inl left => .more { c.account m with left, pc := .round }
  | .inr ret => (c.account m).afterInner ret

end Call

/-- The objects and the threads, the call of the thread that is modelled, and its calls that have
returned. -/
structure State where
  sys : System
  /-- The call of the thread. -/
  call : Option Call
  /-- The calls that have returned. -/
  returned : List Call

/-- What can happen. -/
inductive Act
  /-- Another thread takes a step. -/
  | other (u : Tid) (a : SysAct)
  | enter (handles : List ObjId) (timeOut : ℕ) (fWaitAll : Bool) (dwWaitMask : ℕ)
  /-- `_waitMutliObjectAndMsg` is called. -/
  | inner
  /-- A round begins.  `timeOut` is what is left of the time, or the least `fireRemain`. -/
  | round (timeOut ts1 : ℕ)
  /-- A step inside `WaitForMultipleObjects`, or inside the wait of `waitMsg`. -/
  | wait (a : Sync.Act) (now : ℕ)
  /-- What follows the wait.  `bStatus`: messages are queued, of the kinds that are asked for. -/
  | finish (ts2 : ℕ) (bStatus bQuit : Bool)
  /-- `waitMsg` is called. -/
  | msgWait

/-- Nothing is going on. -/
def init (objs : ObjId → Obj) : State := ⟨.init objs, none, []⟩

namespace State

/-- The call has gone on, or has returned. -/
def after (s : State) : Call.Res → State
  | .more c => { s with call := some c }
  | .ret c => { s with call := none, returned := c :: s.returned }

/-- The thread `t` has taken a step in its wait. -/
def afterWait (s : State) (t : Tid) (c : Call) (sys : System) : State :=
  match c.pc, sys.thr t, sys.returned with
  | .waiting, .idle, m :: _ => { s with sys, call := some { c with pc := .waited m } }
  | _, _, _ => { s with sys }

end State

variable (t : Tid) (evtSync : ObjId)

/-- One step.  `t` is the thread whose calls are modelled, `evtSync` its `m_evtSync`. -/
def next (s : State) : Act → Option State
  | .other u a => if u = t then none else (s.sys.next (u, a)).map fun sys => { s with sys }
  | .enter handles timeOut fWaitAll dwWaitMask =>
    if s.call.isSome then none
    else
      let c := Call.init handles timeOut fWaitAll dwWaitMask
      if MAXIMUM_WAIT_OBJECTS ≤ handles.length then
        some (s.after (.ret { c with ret := WAIT_FAILED }))
      else some (s.after (.more c))
  | .inner =>
    s.call.bind fun c =>
      match c.pc with
      | .outer => some (s.after (.more
          { c with left := c.timeOut, timeOuts := c.timeOut :: c.timeOuts, pc := .round }))
      | _ => none
  | .round timeOut ts1 =>
    s.call.bind fun c =>
      match c.pc with
      | .round =>
        if timeOut ≤ c.left then
          (s.sys.next (t, .waitMultiple (c.hs ++ [some evtSync]) false timeOut)).map fun sys =>
            { s with sys, call := some { c with ts1, pc := .waiting } }
        else none
      | _ => none
  | .wait a now =>
    s.call.bind fun c =>
      match c.pc with
      | .waiting | .msgWaiting => (s.sys.next (t, .step a now)).map (s.afterWait t c)
      | _ => none
  | .finish ts2 bStatus bQuit =>
    s.call.bind fun c =>
      match c.pc with
      | .waited m => some (s.after (c.afterRound m ts2 bStatus bQuit))
      | .msgWaiting =>
        match s.sys.thr t with
        | .idle => some (s.after
            (.ret { c with ret := if bStatus then WAIT_OBJECT_0 else WAIT_TIMEOUT }))
        | _ => none
      | _ => none
  | .msgWait =>
    s.call.bind fun c =>
      match c.pc with
      | .msgOnly =>
        (s.sys.next (t, .call evtSync .select)).map fun sys =>
          { s with
            sys
            call := some { c with timeOuts := c.timeOut :: c.timeOuts, pc := .msgWaiting } }
      | _ => none

/-- The calls as a transition system. -/
def lts : LTS State Act := ⟨next t evtSync⟩

/-- The calls in question: for all objects, fewer than `MAXIMUM_WAIT_OBJECTS`, for a finite time. -/
def Call.Concerned (c : Call) : Prop :=
  c.fWaitAll = true ∧ c.nCount < MAXIMUM_WAIT_OBJECTS ∧ c.timeOut ≠ INFINITE

instance decidableConcerned (c : Call) : Decidable c.Concerned :=
  inferInstanceAs (Decidable (_ ∧ _ ∧ _))

/-- The time-outs of the inner waits add up to the caller's at most. -/
def Call.Bounded (c : Call) : Prop := c.timeOuts.sum ≤ c.timeOut

/-- What a call has done when it returns. -/
structure Call.AllOrNothing (c : Call) : Prop where
  bounded : c.Bounded
  /-- A call that fails has changed no object. -/
  unchanged : c.ret = WAIT_TIMEOUT ∨ c.ret = WAIT_FAILED → ∀ j, j < c.nCount → c.touched j = false
  /-- A call that succeeds has acquired every object once. -/
  acquired : c.ret = WAIT_OBJECT_0 → ∀ j, j < c.nCount → c.acquired j = 1

/-- **The calls are atomic and keep their time-out.** -/
structure Atomic (s : State) : Prop where
  bounded : ∀ c ∈ s.call, c.Concerned → c.Bounded
  returned : ∀ c ∈ s.returned, c.Concerned → c.AllOrNothing

/-! ### The condition -/

/-- Nothing that has to be given back: every object whose handle was replaced is manual-reset. -/
def Call.KeepsNothing (c : Call) (objs : ObjId → Obj) : Prop :=
  ∀ x ∈ c.handles.zip c.hs, x.2 = none → (objs x.1).manualReset = true

instance decidableKeepsNothing (c : Call) (objs : ObjId → Obj) :
    Decidable (c.KeepsNothing objs) :=
  inferInstanceAs (Decidable (∀ x ∈ _, _ → _))

/-- The result of `_waitMutliObjectAndMsg` does no harm: it is a message, a handle that was not
reported before, or a failure of a call that keeps nothing. -/
def Call.Harmless (c : Call) (objs : ObjId → Obj) (ret : ℕ) : Prop :=
  if ret = WAIT_TIMEOUT ∨ ret = WAIT_FAILED then c.KeepsNothing objs
  else ret = WAIT_OBJECT_0 + c.nCount ∨ (c.hs[ret]?.join).isSome = true

instance decidableHarmless (c : Call) (objs : ObjId → Obj) (ret : ℕ) :
    Decidable (c.Harmless objs ret) :=
  inferInstanceAs (Decidable (if ret = WAIT_TIMEOUT ∨ ret = WAIT_FAILED then _ else _ ∨ _))

/-- A result of `_waitMutliObjectAndMsg` is harmless; another round always is. -/
def Call.HarmlessInner (c : Call) (objs : ObjId → Obj) : ℕ ⊕ ℕ → Prop
  | .inl _ => True
  | .inr ret => c.Harmless objs ret

instance decidableHarmlessInner (c : Call) (objs : ObjId → Obj) :
    ∀ r, Decidable (c.HarmlessInner objs r)
  | .inl _ => .isTrue trivial
  | .inr ret => decidableHarmless c objs ret

/-- **The good steps** of the calls in question: `_waitMutliObjectAndMsg` is called again only by a
call whose time-out is 0, `onWaitDone` is called only for the entry that will be reported, and the
results are harmless. -/
def Careful (s : State) : Act → Prop
  | .inner => ∀ c ∈ s.call, c.Concerned → c.timeOuts = [] ∨ c.timeOut = 0
  | .wait _ _ => ∀ c ∈ s.call, c.Concerned →
      ∀ x ∈ WaitMultiple.rechecking s.sys t, x.call.Reports x.i
  | .finish ts2 bStatus bQuit => ∀ c ∈ s.call, c.Concerned →
      ∀ m ∈ c.pc.result, c.HarmlessInner s.sys.objs (c.innerResult m ts2 bStatus bQuit)
  | _ => True

instance decidableCareful (t : Tid) (s : State) : ∀ act, Decidable (Careful t s act)
  | .inner => inferInstanceAs (Decidable (∀ c ∈ s.call, c.Concerned → _ ∨ _))
  | .wait _ _ => inferInstanceAs (Decidable (∀ c ∈ s.call, c.Concerned →
      ∀ x ∈ WaitMultiple.rechecking s.sys t, x.call.Reports x.i))
  | .finish ts2 bStatus bQuit => inferInstanceAs (Decidable (∀ c ∈ s.call, c.Concerned →
      ∀ m ∈ c.pc.result, c.HarmlessInner s.sys.objs (c.innerResult m ts2 bStatus bQuit)))
  | .other _ _ | .enter .. | .round _ _ | .msgWait => .isTrue trivial

/-! ### One call of `WaitForMultipleObjects` -/

/-- What holds of a call for any of its handles, on objects of the kinds `K`, as long as it calls
`onWaitDone` only for the entry it will report. -/
structure Narrow (K : ObjId → Kind) (m : Multi) : Prop where
  any : m.bWaitAll = false
  tracked : m.Tracked K
  phase : m.Phase
  only : ∀ j, 0 < m.acquired j → m.Reports j
  /-- Objects that are manual-reset are not changed. -/
  manual : ∀ j o, m.handle j = some o → (K o).manualReset = true →
    m.touched j = false ∧ ∀ w, m.pc = .onWaitDone j w → w = .enter

/-- What such a call has done when it returns. -/
structure Reported (K : ObjId → Kind) (m : Multi) : Prop where
  any : m.bWaitAll = false
  settled : m.Settled
  only : ∀ j, 0 < m.acquired j → m.Reports j
  manual : ∀ j o, m.handle j = some o → (K o).manualReset = true → m.touched j = false

namespace Narrow

variable {K : ObjId → Kind} {m m' : Multi}

theorem init (hs : List (Option ObjId)) (ms : ℕ) : Narrow K (.init hs false ms) where
  any := rfl
  tracked := Multi.tracked_init hs false ms
  phase _ := rfl
  only _ h := absurd h (Nat.lt_irrefl 0)
  manual _ _ _ _ := ⟨rfl, fun _ h => by cases h⟩

theorem reports_step {objs : ObjId → Obj} {a : Sync.Act} {now : ℕ} {r : Multi.Res}
    (h : Narrow K m) (hs : m.step objs a now = some r) (hr : r = .more m' ∨ r = .ret m') :
    ∀ j, 0 < m'.acquired j → m'.Reports j := by
  intro j hj
  obtain ⟨hhs, hall, hacq, -⟩ := Multi.step_ghosts hs hr
  rw [hacq] at hj
  have hsame : m'.nRet = m.nRet → m'.Reports j := fun hn => by
    obtain ⟨hlt, hret⟩ := h.only j hj
    exact ⟨by rwa [Multi.nCount, hhs], by rw [hn, hall, hret]⟩
  have hphase := h.phase
  cases hpc : m.pc with
  | recheck i =>
    refine hsame ?_
    unfold Multi.step at hs
    rw [hpc] at hs
    cases a with
    | run =>
      simp only at hs
      split_ifs at hs
      all_goals
        cases hs
        rcases hr with hr | hr <;> cases hr
        rfl
    | _ => cases hs
  | onWaitDone i w => exact absurd hpc ((Multi.step_pc hs).1 i w)
  | evaluate =>
    rw [Multi.Phase, hpc] at hphase
    exact absurd (hphase.1 j) (Nat.ne_of_gt hj)
  | start | restart | loop | select | invalid =>
    rw [Multi.Phase, hpc] at hphase
    exact absurd (hphase j) (Nat.ne_of_gt hj)

theorem step {objs : ObjId → Obj} {a : Sync.Act} {now : ℕ} (h : Narrow K m)
    (hs : m.step objs a now = some (.more m')) : Narrow K m' := by
  obtain ⟨hhs, hall, -, htou⟩ := Multi.step_ghosts hs (.inl rfl)
  refine ⟨hall.trans h.any, h.tracked.step hs, h.phase.step h.tracked hs,
    h.reports_step hs (.inl rfl), fun j o ho hk => ?_⟩
  rw [Multi.handle, hhs] at ho
  refine ⟨htou ▸ (h.manual j o ho hk).1, fun w hw => ?_⟩
  rcases ((Multi.step_pc hs).2 m' rfl).2 with hno | ⟨i, -, hpc, -⟩
  · exact absurd hw (hno j w)
  · rw [hpc] at hw
    cases hw
    rfl

theorem returned {objs : ObjId → Obj} {a : Sync.Act} {now : ℕ} (h : Narrow K m)
    (hs : m.step objs a now = some (.ret m')) (hn : m.nCount ≤ MAXIMUM_WAIT_OBJECTS) :
    Reported K m' := by
  obtain ⟨hhs, hall, -, htou⟩ := Multi.step_ghosts hs (.inr rfl)
  have hn' : m'.nCount ≤ MAXIMUM_WAIT_OBJECTS := by rwa [Multi.nCount, hhs]
  refine ⟨hall.trans h.any, h.phase.settled h.tracked hs hn', h.reports_step hs (.inr rfl),
    fun j o ho hk => ?_⟩
  rw [Multi.handle, hhs] at ho
  exact htou ▸ (h.manual j o ho hk).1

/-- `onWaitDone` of a manual-reset object succeeds at once and changes nothing. -/
theorem enter_manual {t : Tid} {ob ob' : Obj} {r : WaitDone.Res} {evs : List Ev}
    (hk : ob.data.kind.manualReset = true) (hw : WaitDone.enter.step t ob = some (ob', r, evs)) :
    ob' = ob ∧ r = .done true := by
  unfold WaitDone.step at hw
  cases hd : ob.data with
  | event b | timer b =>
    rw [hd] at hk hw
    obtain rfl : b = true := hk
    cases hw
    exact ⟨rfl, rfl⟩
  | semaphore | mutex =>
    rw [hd] at hk
    cases hk

theorem afterWaitDone {t : Tid} {ob ob' : Obj} {i : ℕ} {o : ObjId} {w : WaitDone}
    {r : WaitDone.Res} {evs : List Ev} (h : Narrow K m) (hpc : m.pc = .onWaitDone i w)
    (ho : m.handle i = some o) (hk : ob.data.kind = K o)
    (hw : w.step t ob = some (ob', r, evs)) (hrep : m.Reports i) :
    Narrow K (m.afterWaitDone i
      (decide (ob'.tokens ≠ ob.tokens ∨ ob'.data ≠ ob.data)) r) := by
  have hone : ∀ j, m.Reports j → j = i := by
    intro j hj
    have hji := hj.2.symm.trans hrep.2
    rw [h.any] at hji
    exact Nat.add_left_cancel hji
  -- the only entry that can have been acquired is `i`, and it is being acquired
  have hnone : ∀ j, m.acquired j = 0 := by
    intro j
    by_contra hj
    have hjr := h.only j (Nat.pos_of_ne_zero hj)
    obtain rfl := hone j hjr
    have hphase := h.phase
    rw [Multi.Phase, hpc] at hphase
    exact hj (by rw [hphase.acquired j o hjr ho, if_neg (Nat.lt_irrefl j)])
  have hsame : ∀ j, m.Reports j ↔ (m.afterWaitDone i
      (decide (ob'.tokens ≠ ob.tokens ∨ ob'.data ≠ ob.data)) r).Reports j := by
    intro j
    rcases r with w' | (_ | _) <;> exact Iff.rfl
  refine ⟨?_, h.tracked.afterWaitDone hpc ho hk hw,
    h.phase.afterWaitDone h.tracked hpc hw (fun _ => hrep) (fun _ j _ => hnone j), ?_, ?_⟩
  · rcases r with w' | (_ | _) <;> exact h.any
  · intro j hj
    rw [Multi.afterWaitDone_acquired] at hj
    rw [← hsame]
    split_ifs at hj with hji
    · rw [hji.1]
      exact hrep
    · exact h.only j hj
  · intro j o' ho' hk'
    rw [Multi.afterWaitDone_handle] at ho'
    obtain ⟨hfalse, henter⟩ := h.manual j o' ho' hk'
    rw [Multi.afterWaitDone_touched, Multi.afterWaitDone_pc]
    by_cases hji : j = i
    · subst hji
      obtain rfl : o = o' := Option.some.inj (ho.symm.trans ho')
      obtain rfl := henter w hpc
      obtain ⟨rfl, rfl⟩ := enter_manual (hk ▸ hk') hw
      exact ⟨by simp [hfalse], fun w hw => by cases hw⟩
    · refine ⟨by rw [if_neg hji, hfalse], fun w' hw' => ?_⟩
      rcases r with w'' | (_ | _)
      · cases hw'
        exact absurd rfl hji
      · cases hw'
      · cases hw'

end Narrow

/-! ### One call of `waitMutliObjectAndMsg` -/

/-- The entry `j`, the object `o`: its handle is in place and nothing has been done to it, or it
has been acquired once and its handle replaced. -/
def Call.Entry (K : ObjId → Kind) (c : Call) (j : ℕ) (o : ObjId) : Prop :=
  c.hs[j]? = some (some o) ∧ c.acquired j = 0 ∧ c.touched j = false ∨
  c.hs[j]? = some none ∧ c.acquired j = 1 ∧ ((K o).manualReset = true → c.touched j = false)

/-- What holds of a call of the thread `t` that has been careful. -/
structure CallInv (K : ObjId → Kind) (s : System) (c : Call) : Prop where
  bounded : c.Bounded
  length : c.hs.length = c.nCount
  entries : ∀ j o, c.handles[j]? = some o → c.Entry K j o
  count : c.nSignals = c.hs.countP (·.isNone)
  waiting : c.pc = .waiting →
    ∃ m, s.thr t = .multi m ∧ m.lpHandles = c.hs ++ [some evtSync] ∧ Narrow K m
  waited : ∀ m, c.pc = .waited m → m.lpHandles = c.hs ++ [some evtSync] ∧ Reported K m
  msgOnly : c.pc = .msgOnly → c.timeOuts = []
  alone : c.pc = .msgOnly ∨ c.pc = .msgWaiting → c.nCount = 0

variable {t evtSync} {K : ObjId → Kind} {c : Call} {m : Multi}

theorem callInv_init (sys : System) (handles : List ObjId) (timeOut : ℕ) (fWaitAll : Bool)
    (dwWaitMask : ℕ) :
    CallInv t evtSync K sys (.init handles timeOut fWaitAll dwWaitMask) := by
  have hcases : ∀ pc : PC, (Call.init handles timeOut fWaitAll dwWaitMask).pc = pc →
      pc = .msgOnly ∧ handles.length = 0 ∨ pc = .outer := by
    rintro pc rfl
    unfold Call.init
    simp only
    split_ifs with h0
    · exact .inl ⟨rfl, h0.1⟩
    · exact .inr rfl
  refine ⟨Nat.zero_le _, List.length_map _, fun j o hj => .inl ⟨?_, rfl, rfl⟩, ?_, ?_, ?_,
    fun _ => rfl, ?_⟩
  · have hj' : handles[j]? = some o := hj
    simp only [Call.init, List.getElem?_map, hj', Option.map_some]
  · have hnone : (handles.map some).countP (·.isNone) = 0 := by
      rw [List.countP_eq_zero]
      simp
    exact hnone.symm
  · intro hpc
    rcases hcases _ hpc with ⟨h, -⟩ | h <;> cases h
  · intro m hpc
    rcases hcases _ hpc with ⟨h, -⟩ | h <;> cases h
  · rintro (hpc | hpc)
    · rcases hcases _ hpc with ⟨-, h⟩ | h
      · exact h
      · cases h
    · rcases hcases _ hpc with ⟨h, -⟩ | h <;> cases h

theorem innerResult_inr {ts2 ret : ℕ} {bStatus bQuit : Bool}
    (h : c.innerResult m ts2 bStatus bQuit = .inr ret) (hn : c.nCount < MAXIMUM_WAIT_OBJECTS) :
    ret = m.nRet ∨ c.nCount ≤ ret ∧ c.nCount ≤ m.nRet := by
  unfold MAXIMUM_WAIT_OBJECTS at hn
  have htimeout : WAIT_TIMEOUT = 258 := rfl
  have hfailed : WAIT_FAILED = 0xFFFFFFFF := rfl
  have hobject : WAIT_OBJECT_0 = 0 := rfl
  simp only [Call.innerResult] at h
  split_ifs at h with hmsg
  all_goals
    have hret := Sum.inr.inj h
    omega

theorem innerResult_inl {ts2 left : ℕ} {bStatus bQuit : Bool}
    (h : c.innerResult m ts2 bStatus bQuit = .inl left) (hn : c.nCount < MAXIMUM_WAIT_OBJECTS) :
    c.nCount ≤ m.nRet := by
  unfold MAXIMUM_WAIT_OBJECTS at hn
  have htimeout : WAIT_TIMEOUT = 258 := rfl
  have hobject : WAIT_OBJECT_0 = 0 := rfl
  simp only [Call.innerResult] at h
  split_ifs at h with hmsg
  all_goals omega

/-- A round has done nothing to an entry that it does not report. -/
theorem Reported.untouched (h : Reported K m) {j : ℕ} (hj : m.nRet ≠ j) :
    m.acquired j = 0 ∧ m.touched j = false := by
  have hnot : ¬ m.Reports j := fun hr => hj (by
    have := hr.2
    rw [h.any] at this
    simpa [WAIT_OBJECT_0] using this)
  constructor
  · by_contra h0
    exact hnot (h.only j (Nat.pos_of_ne_zero h0))
  · by_contra ht
    exact hnot (h.settled.touched j (by simpa using ht))

theorem Call.Entry.account {j : ℕ} {o : ObjId} (he : c.Entry K j o) (h : Reported K m)
    (hj : m.nRet ≠ j) : (c.account m).Entry K j o := by
  obtain ⟨hacq, htou⟩ := h.untouched hj
  unfold Call.Entry at he ⊢
  simpa only [Call.account, hacq, htou, Nat.add_zero, Bool.or_false] using he

/-- The reported entry has been acquired; its handle is replaced. -/
theorem Call.Entry.replace {j : ℕ} {o : ObjId} (he : c.Entry K j o) (h : Reported K m)
    (hhs : m.lpHandles = c.hs ++ [some evtSync]) (hj : m.nRet = j)
    (hsome : (c.hs[j]?.join).isSome = true) :
    (c.hs.set j none)[j]? = some none ∧ c.acquired j + m.acquired j = 1 ∧
      ((K o).manualReset = true → (c.touched j || m.touched j) = false) := by
  rcases he with ⟨hold, hacq, htou⟩ | ⟨hgone, -, -⟩
  · have hlt : j < c.hs.length := (List.getElem?_eq_some_iff.1 hold).1
    have hhandle : m.handle j = some o := by
      rw [Multi.handle, hhs, List.getElem?_append_left hlt, hold]
      rfl
    have hrep : m.Reports j :=
      ⟨Multi.lt_nCount hhandle, by simp [h.any, hj, WAIT_OBJECT_0]⟩
    refine ⟨by rw [List.getElem?_set_self hlt], ?_, fun hk => ?_⟩
    · rw [hacq, h.settled.acquired j o hrep hhandle]
    · rw [htou, h.manual j o hhandle hk]
      rfl
  · rw [hgone] at hsome
    cases hsome

namespace CallInv

variable {s : System}

/-- A call whose handles are all replaced has acquired every object once. -/
theorem acquired_of_count (hentries : ∀ j o, c.handles[j]? = some o → c.Entry K j o)
    (hlength : c.hs.length = c.nCount) (hcount : c.hs.countP (·.isNone) = c.nCount) :
    ∀ j, j < c.nCount → c.acquired j = 1 := by
  intro j hj
  have hall := List.countP_eq_length.1 (hcount.trans hlength.symm)
  rcases hentries j _ (List.getElem?_eq_getElem hj) with ⟨hold, -, -⟩ | ⟨-, hacq, -⟩
  · have hnone := hall _ (List.mem_of_getElem? hold)
    cases hnone
  · exact hacq

theorem entries_account (hI : CallInv t evtSync K s c) (hpc : c.pc = .waited m) {j : ℕ}
    {o : ObjId} (hj : c.handles[j]? = some o) (hne : m.nRet ≠ j) : (c.account m).Entry K j o :=
  (hI.entries j o hj).account (hI.waited m hpc).2 hne

theorem failed (hI : CallInv t evtSync K s c) (hpc : c.pc = .waited m) {objs : ObjId → Obj}
    (hk : ∀ o, (objs o).data.kind = K o) (hkeeps : c.KeepsNothing objs)
    (hm : ∀ j, j < c.nCount → m.nRet ≠ j) :
    ∀ j, j < c.nCount → (c.account m).touched j = false := by
  intro j hj
  have hhandle : c.handles[j]? = some c.handles[j] := List.getElem?_eq_getElem hj
  rcases hI.entries_account hpc hhandle (hm j hj) with ⟨-, -, htou⟩ | ⟨hnone, -, hmanual⟩
  · exact htou
  · refine hmanual ?_
    have hmem : (c.handles[j], none) ∈ c.handles.zip c.hs := by
      refine List.mem_of_getElem? (i := j) ?_
      rw [List.getElem?_zip_eq_some]
      exact ⟨hhandle, hnone⟩
    have hmanual := hkeeps _ hmem rfl
    rwa [Obj.manualReset, hk] at hmanual

/-- What a call is after it has gone on, or returned. -/
def After (t : Tid) (evtSync : ObjId) (K : ObjId → Kind) (s : System) : Call.Res → Prop
  | .more c => CallInv t evtSync K s c
  | .ret c => c.AllOrNothing

theorem of_pc (hpc : c.pc = .outer ∨ c.pc = .round) (hbounded : c.Bounded)
    (hlength : c.hs.length = c.nCount) (hentries : ∀ j o, c.handles[j]? = some o → c.Entry K j o)
    (hcount : c.nSignals = c.hs.countP (·.isNone)) : CallInv t evtSync K s c := by
  refine ⟨hbounded, hlength, hentries, hcount, fun h => ?_, fun m h => ?_, fun h => ?_, fun h => ?_⟩
  · rcases hpc with hpc | hpc <;> cases hpc.symm.trans h
  · rcases hpc with hpc | hpc <;> cases hpc.symm.trans h
  · rcases hpc with hpc | hpc <;> cases hpc.symm.trans h
  · rcases hpc with hpc | hpc <;> rcases h with h | h <;> cases hpc.symm.trans h

theorem after_test (hbounded : c.Bounded) (hlength : c.hs.length = c.nCount)
    (hentries : ∀ j o, c.handles[j]? = some o → c.Entry K j o)
    (hcount : c.nSignals = c.hs.countP (·.isNone)) :
    After t evtSync K s c.test := by
  unfold Call.test
  split_ifs with hdone
  · refine ⟨hbounded, fun hf => ?_, fun _ => ?_⟩
    · rcases hf with hf | hf <;> cases hf
    · exact acquired_of_count hentries hlength (hcount.symm.trans hdone.1)
  · exact of_pc (.inl rfl) hbounded hlength hentries hcount

/-- **The loop of `waitMutliObjectAndMsg`** after a harmless result. -/
theorem afterInner (hI : CallInv t evtSync K s c) (hpc : c.pc = .waited m) (hc : c.Concerned)
    {objs : ObjId → Obj} (hk : ∀ o, (objs o).data.kind = K o) {ret : ℕ}
    (hret : ret = m.nRet ∨ c.nCount ≤ ret ∧ c.nCount ≤ m.nRet) (hcare : c.Harmless objs ret)
    (s' : System) : After t evtSync K s' ((c.account m).afterInner ret) := by
  have h64 : c.nCount < 64 := hc.2.1
  obtain ⟨hhs, hm⟩ := hI.waited m hpc
  have hother : ∀ j, j < c.nCount → ret ≠ j → m.nRet ≠ j := by
    intro j hj hne
    omega
  have hentries : ∀ j o, c.handles[j]? = some o → ret ≠ j → (c.account m).Entry K j o := by
    intro j o hj hne
    exact hI.entries_account hpc hj (hother j (List.getElem?_eq_some_iff.1 hj).1 hne)
  unfold Call.Harmless at hcare
  unfold Call.afterInner Call.counted
  split_ifs at hcare with hfail
  · -- the failing exits
    rw [if_pos (.inr hfail)]
    have hlarge : c.nCount ≤ ret := by
      rcases hfail with rfl | rfl
      · exact h64.le.trans (by decide)
      · exact h64.le.trans (by decide)
    refine ⟨hI.bounded, fun _ => hI.failed hpc hk hcare fun j hj => hother j hj (by omega), ?_⟩
    rintro rfl
    rcases hfail with hf | hf <;> cases hf
  · have hall : (c.account m).fWaitAll = true := hc.1
    rw [if_neg (by simp [hall, hfail])]
    rcases hcare with rfl | hsome
    · -- a message
      have hne : ∀ j, j < c.nCount → WAIT_OBJECT_0 + c.nCount ≠ j := by
        intro j hj
        unfold WAIT_OBJECT_0
        omega
      have hmsg : WAIT_OBJECT_0 + c.nCount = WAIT_OBJECT_0 + (c.account m).nCount := rfl
      rw [if_pos hmsg]
      exact after_test hI.bounded hI.length
        (fun j o hj => hentries j o hj (hne j (List.getElem?_eq_some_iff.1 hj).1)) hI.count
    · -- a handle that was not reported before
      have hlt : ret < c.hs.length := by
        by_contra hge
        rw [List.getElem?_eq_none (not_lt.1 hge)] at hsome
        cases hsome
      have hltn : ret < c.nCount := hI.length ▸ hlt
      have hreported : m.nRet = ret := by omega
      have hnot : ret ≠ WAIT_OBJECT_0 + (c.account m).nCount := by
        have hn : (c.account m).nCount = c.nCount := rfl
        unfold WAIT_OBJECT_0
        omega
      rw [if_neg hnot]
      refine after_test hI.bounded ?_ ?_ ?_
      · exact (List.length_set ..).trans hI.length
      · intro j o hj
        by_cases hne : ret = j
        · subst hne
          exact .inr ((hI.entries ret o hj).replace hm hhs hreported hsome)
        · have hold := hentries j o hj hne
          unfold Call.Entry at hold ⊢
          simp only [WAIT_OBJECT_0, Nat.sub_zero]
          rwa [List.getElem?_set_ne hne]
      · obtain ⟨o, ho⟩ := Option.isSome_iff_exists.1 hsome
        have hcur := (List.getElem?_eq_some_iff.1 (Option.join_eq_some_iff.1 ho)).2
        show c.nSignals + 1 = (c.hs.set ret none).countP (·.isNone)
        rw [List.countP_set hlt, hI.count, hcur]
        simp

theorem afterRound (hI : CallInv t evtSync K s c) (hpc : c.pc = .waited m) (hc : c.Concerned)
    {objs : ObjId → Obj} (hk : ∀ o, (objs o).data.kind = K o) {ts2 : ℕ} {bStatus bQuit : Bool}
    (hcare : ∀ ret, c.innerResult m ts2 bStatus bQuit = .inr ret → c.Harmless objs ret)
    (s' : System) : After t evtSync K s' (c.afterRound m ts2 bStatus bQuit) := by
  unfold Call.afterRound
  split
  case h_1 left hres =>
    have hn := innerResult_inl hres hc.2.1
    refine of_pc (.inr rfl) hI.bounded hI.length (fun j o hj => ?_) hI.count
    have hlt : j < c.nCount := (List.getElem?_eq_some_iff.1 hj).1
    exact hI.entries_account hpc hj (by omega)
  case h_2 ret hres =>
    exact hI.afterInner hpc hc hk (innerResult_inr hres hc.2.1) (hcare ret hres) s'

end CallInv

/-- The call, whether it goes on or has returned. -/
def Call.Res.call : Call.Res → Call
  | .more c | .ret c => c

@[simp] theorem Call.Res.call_more (c : Call) : (Call.Res.more c).call = c := rfl

@[simp] theorem Call.Res.call_ret (c : Call) : (Call.Res.ret c).call = c := rfl

theorem concerned_afterRound (ts2 : ℕ) (bStatus bQuit : Bool) :
    (c.afterRound m ts2 bStatus bQuit).call.Concerned ↔ c.Concerned := by
  have htest : ∀ c : Call, c.test.call.Concerned ↔ c.Concerned := by
    intro c
    unfold Call.test
    split_ifs <;> exact Iff.rfl
  have hcounted : ∀ (c : Call) (ret : ℕ), (c.counted ret).Concerned ↔ c.Concerned := by
    intro c ret
    unfold Call.counted
    split_ifs <;> exact Iff.rfl
  unfold Call.afterRound
  split
  · exact Iff.rfl
  · unfold Call.afterInner
    split_ifs
    · exact Iff.rfl
    · rw [htest, hcounted]
      exact Iff.rfl

/-! ### The objects and the threads -/

theorem kind_next {s s' : System} {l : Tid × SysAct} (h : s.next l = some s') (o : ObjId) :
    (s'.objs o).data.kind = (s.objs o).data.kind := by
  have hwrite : ∀ o₁ ob', ob'.data.kind = (s.objs o₁).data.kind →
      (Function.update s.objs o₁ ob' o).data.kind = (s.objs o).data.kind := by
    intro o₁ ob' hk
    by_cases ho : o = o₁
    · subst ho
      rw [Function.update_self, hk]
    · rw [Function.update_of_ne ho]
  rcases System.next_cases h with ⟨_, _, _, _, _, _, rfl⟩ | ⟨_, _, _, _, _, rfl⟩ |
    ⟨o₁, _, _, ob', _, _, _, hact, rfl⟩ | ⟨_, _, _, o₁, ob', _, _, _, _, _, hw, rfl⟩ |
    ⟨_, _, _, _, _, _, rfl⟩ | ⟨_, _, _, _, _, _, rfl⟩
  · rfl
  · rfl
  · exact hwrite o₁ ob' (Op.act_kind hact)
  · exact hwrite o₁ ob' (WaitDone.step_kind hw)
  · rfl
  · rfl

theorem thr_waitMultiple {s s' : System} {hs : List (Option ObjId)} {all : Bool} {ms : ℕ}
    (h : s.next (t, .waitMultiple hs all ms) = some s') : s'.thr t = .multi (.init hs all ms) := by
  unfold System.next at h
  split at h
  case h_2 hs' all' ms' hth hl =>
    obtain ⟨rfl, rfl, rfl⟩ := SysAct.waitMultiple.inj hl
    obtain rfl := Option.some.inj h
    exact Function.update_self ..
  all_goals simp_all

/-- A step of a `WaitForMultipleObjects` that only checks the entry it will report. -/
theorem narrow_next {s s' : System} {a : Sync.Act} {now : ℕ} (hk : ∀ o, (s.objs o).data.kind = K o)
    (hth : s.thr t = .multi m) (hm : Narrow K m) (hn : m.nCount ≤ MAXIMUM_WAIT_OBJECTS)
    (hcare : ∀ x ∈ WaitMultiple.rechecking s t, x.call.Reports x.i)
    (h : s.next (t, .step a now) = some s') :
    (∃ m', s'.thr t = .multi m' ∧ m'.lpHandles = m.lpHandles ∧ Narrow K m') ∨
    ∃ m', s'.thr t = .idle ∧ s'.returned = m' :: s.returned ∧ m'.lpHandles = m.lpHandles ∧
      Reported K m' := by
  rcases System.next_cases h with ⟨_, _, _, hth', _, _, rfl⟩ | ⟨_, _, _, _, hth', rfl⟩ |
    ⟨_, _, _, _, _, _, hth', _, rfl⟩ | ⟨c, i, w, o, ob', r, evs, hth', hpc, ho, hw, rfl⟩ |
    ⟨c, _, _, c', hth', hc, rfl⟩ | ⟨c, _, _, c', hth', hc, rfl⟩
  · cases hth'.symm.trans hth
  · cases hth'.symm.trans hth
  · cases hth'.symm.trans hth
  · obtain rfl := Thr.multi.inj (hth'.symm.trans hth)
    have hrep : c.Reports i := hcare _ (WaitMultiple.rechecking_eq hth' hpc ho)
    refine .inl ⟨_, Function.update_self .., ?_, hm.afterWaitDone hpc ho (hk o) hw hrep⟩
    rcases r with w' | (_ | _) <;> rfl
  · obtain rfl := Thr.multi.inj (hth'.symm.trans hth)
    exact .inl ⟨c', Function.update_self .., (Multi.step_ghosts hc (.inl rfl)).1, hm.step hc⟩
  · obtain rfl := Thr.multi.inj (hth'.symm.trans hth)
    exact .inr ⟨c', Function.update_self .., rfl, (Multi.step_ghosts hc (.inr rfl)).1,
      hm.returned hc hn⟩

/-- What is known in a careful run. -/
structure Inv (t : Tid) (evtSync : ObjId) (K : ObjId → Kind) (s : State) : Prop where
  kind : ∀ o, (s.sys.objs o).data.kind = K o
  call : ∀ c ∈ s.call, c.Concerned → CallInv t evtSync K s.sys c
  returned : ∀ c ∈ s.returned, c.Concerned → c.AllOrNothing

theorem inv_init (objs : ObjId → Obj) :
    Inv t evtSync (fun o => (objs o).data.kind) (init objs) := by
  refine ⟨fun _ => rfl, fun c hc => ?_, fun c hc => ?_⟩
  · cases hc
  · cases hc

namespace Inv

variable {s : State}

theorem atomic (hI : Inv t evtSync K s) : Atomic s :=
  ⟨fun c hc hcon => (hI.call c hc hcon).bounded, hI.returned⟩

theorem more (hI : Inv t evtSync K s) {sys : System} (hk : ∀ o, (sys.objs o).data.kind = K o)
    (h : c.Concerned → CallInv t evtSync K sys c) :
    Inv t evtSync K { s with sys, call := some c } := by
  refine ⟨hk, fun c' hc' => ?_, hI.returned⟩
  obtain rfl := Option.some.inj hc'
  exact h

theorem after (hI : Inv t evtSync K s) {r : Call.Res}
    (hmore : ∀ c', r = .more c' → c'.Concerned → CallInv t evtSync K s.sys c')
    (hret : ∀ c', r = .ret c' → c'.Concerned → c'.AllOrNothing) :
    Inv t evtSync K (s.after r) := by
  cases r with
  | more c => exact hI.more hI.kind (hmore c rfl)
  | ret c =>
    refine ⟨hI.kind, fun c' hc' => (by cases hc'), fun c' hc' => ?_⟩
    rcases List.mem_cons.1 hc' with rfl | hc'
    · exact hret c' rfl
    · exact hI.returned c' hc'

theorem other (hI : Inv t evtSync K s) {u : Tid} {a : SysAct} {sys : System} (hu : u ≠ t)
    (h : s.sys.next (u, a) = some sys) : Inv t evtSync K { s with sys } := by
  refine ⟨fun o => (kind_next h o).trans (hI.kind o), fun c hc hcon => ?_, hI.returned⟩
  have hthr : sys.thr t = s.sys.thr t := System.next_thr h (Ne.symm hu)
  have hold := hI.call c hc hcon
  exact { hold with waiting := fun hpc => hthr.symm ▸ hold.waiting hpc }

theorem wait (hI : Inv t evtSync K s) (hc : c ∈ s.call) (hpc : c.pc = .waiting) {a : Sync.Act}
    {now : ℕ} (hcare : Careful t s (.wait a now)) {sys : System}
    (h : s.sys.next (t, .step a now) = some sys) : Inv t evtSync K (s.afterWait t c sys) := by
  have hk : ∀ o, (sys.objs o).data.kind = K o := fun o => (kind_next h o).trans (hI.kind o)
  have hwait : c.Concerned →
      (∃ m, sys.thr t = .multi m ∧ m.lpHandles = c.hs ++ [some evtSync] ∧ Narrow K m) ∨
      ∃ m rest, sys.thr t = .idle ∧ sys.returned = m :: rest ∧
        m.lpHandles = c.hs ++ [some evtSync] ∧ Reported K m := by
    intro hcon
    have hold := hI.call c hc hcon
    obtain ⟨m, hth, hhs, hm⟩ := hold.waiting hpc
    have hn : m.nCount ≤ MAXIMUM_WAIT_OBJECTS := by
      rw [Multi.nCount, hhs, List.length_append, hold.length]
      exact hcon.2.1
    rcases narrow_next hI.kind hth hm hn (hcare c hc hcon) h with
      ⟨m', hth', hhs', hm'⟩ | ⟨m', hth', hret, hhs', hm'⟩
    · exact .inl ⟨m', hth', hhs'.trans hhs, hm'⟩
    · exact .inr ⟨m', _, hth', hret, hhs'.trans hhs, hm'⟩
  unfold State.afterWait
  split
  case h_1 m rest _ hth hret =>
    refine hI.more hk fun hcon => ?_
    rcases hwait hcon with ⟨m', hth', -⟩ | ⟨m', rest', -, hret', hhs, hm⟩
    · cases hth'.symm.trans hth
    · obtain rfl := (List.cons.inj (hret'.symm.trans hret)).1
      have hold := hI.call c hc hcon
      refine ⟨hold.bounded, hold.length, hold.entries, hold.count, fun h => ?_, fun m h => ?_,
        fun h => ?_, fun h => ?_⟩
      · cases h
      · obtain rfl := PC.waited.inj h
        exact ⟨hhs, hm⟩
      · cases h
      · rcases h with h | h <;> cases h
  case h_2 hnot =>
    refine ⟨hk, fun c' hc' hcon => ?_, hI.returned⟩
    obtain rfl := Option.some.inj (hc.symm.trans hc')
    rcases hwait hcon with hstill | ⟨m', rest', hth', hret', -, -⟩
    · exact { hI.call c hc hcon with waiting := fun _ => hstill }
    · exact (hnot m' rest' hpc hth' hret').elim

end Inv

theorem Inv.next {s s' : State} {act : Act} (hI : Inv t evtSync K s) (hcare : Careful t s act)
    (h : MsgWait.next t evtSync s act = some s') : Inv t evtSync K s' := by
  cases act with
  | other u a =>
    simp only [MsgWait.next, Option.ite_none_left_eq_some] at h
    obtain ⟨hu, h⟩ := h
    obtain ⟨sys, hsys, rfl⟩ := Option.map_eq_some_iff.1 h
    exact hI.other hu hsys
  | enter handles timeOut fWaitAll dwWaitMask =>
    simp only [MsgWait.next, Option.ite_none_left_eq_some] at h
    obtain ⟨-, h⟩ := h
    split_ifs at h with hmany
    · obtain rfl := Option.some.inj h
      refine hI.after (fun c' hc' => by cases hc') fun c' hc' hcon => ?_
      cases hc'
      exact absurd hcon.2.1 (Nat.not_lt.2 hmany)
    · obtain rfl := Option.some.inj h
      refine hI.after (fun c' hc' _ => ?_) fun c' hc' => by cases hc'
      cases hc'
      exact callInv_init s.sys handles timeOut fWaitAll dwWaitMask
  | inner =>
    obtain ⟨c, hc, h⟩ := Option.bind_eq_some_iff.1 h
    split at h
    case h_2 => cases h
    case h_1 hpc =>
      obtain rfl := Option.some.inj h
      refine hI.after (fun c' hc' hcon => ?_) fun c' hc' => by cases hc'
      cases hc'
      have hold := hI.call c hc hcon
      refine .of_pc (.inr rfl) ?_ hold.length hold.entries hold.count
      have hsum := hold.bounded
      unfold Call.Bounded at hsum ⊢
      rcases hcare c hc hcon with hnil | hzero
      · simp [hnil]
      · simpa [hzero] using hsum
  | round timeOut ts1 =>
    obtain ⟨c, hc, h⟩ := Option.bind_eq_some_iff.1 h
    split at h
    case h_2 => cases h
    case h_1 hpc =>
      rw [Option.ite_none_right_eq_some] at h
      obtain ⟨-, h⟩ := h
      obtain ⟨sys, hsys, rfl⟩ := Option.map_eq_some_iff.1 h
      refine hI.more (fun o => (kind_next hsys o).trans (hI.kind o)) fun hcon => ?_
      have hold := hI.call c hc hcon
      refine ⟨hold.bounded, hold.length, hold.entries, hold.count, fun _ => ?_, fun m h => ?_,
        fun h => ?_, fun h => ?_⟩
      · exact ⟨_, thr_waitMultiple hsys, rfl, Narrow.init _ _⟩
      · cases h
      · cases h
      · rcases h with h | h <;> cases h
  | wait a now =>
    obtain ⟨c, hc, h⟩ := Option.bind_eq_some_iff.1 h
    split at h
    case h_1 hpc =>
      obtain ⟨sys, hsys, rfl⟩ := Option.map_eq_some_iff.1 h
      exact hI.wait hc hpc hcare hsys
    case h_2 hpc =>
      obtain ⟨sys, hsys, rfl⟩ := Option.map_eq_some_iff.1 h
      have heq : s.afterWait t c sys = { s with sys } := by
        unfold State.afterWait
        rw [hpc]
      rw [heq]
      refine ⟨fun o => (kind_next hsys o).trans (hI.kind o), fun c' hc' hcon => ?_, hI.returned⟩
      obtain rfl := Option.some.inj (hc.symm.trans hc')
      exact { hI.call c hc hcon with waiting := fun h => by cases hpc.symm.trans h }
    case h_3 => cases h
  | finish ts2 bStatus bQuit =>
    obtain ⟨c, hc, h⟩ := Option.bind_eq_some_iff.1 h
    split at h
    case h_1 m hpc =>
      obtain rfl := Option.some.inj h
      have hafter : c.Concerned →
          CallInv.After t evtSync K s.sys (c.afterRound m ts2 bStatus bQuit) := by
        intro hcon
        refine (hI.call c hc hcon).afterRound hpc hcon hI.kind (fun ret hret => ?_) s.sys
        have hharmless := hcare c hc hcon m (by rw [hpc]; rfl)
        rwa [hret] at hharmless
      refine hI.after (fun c' hc' hcon => ?_) fun c' hc' hcon => ?_
      · rw [← Call.Res.call_more c', ← hc', concerned_afterRound] at hcon
        have hgood := hafter hcon
        rwa [hc'] at hgood
      · rw [← Call.Res.call_ret c', ← hc', concerned_afterRound] at hcon
        have hgood := hafter hcon
        rwa [hc'] at hgood
    case h_2 hpc =>
      split at h
      case h_2 => cases h
      case h_1 hth =>
        obtain rfl := Option.some.inj h
        refine hI.after (fun c' hc' => by cases hc') fun c' hc' hcon => ?_
        cases hc'
        have hold := hI.call c hc hcon
        have hnone : ∀ j, ¬ j < c.nCount := by
          rw [hold.alone (.inr hpc)]
          exact Nat.not_lt_zero
        exact ⟨hold.bounded, fun _ j hj => absurd hj (hnone j), fun _ j hj => absurd hj (hnone j)⟩
    case h_3 => cases h
  | msgWait =>
    obtain ⟨c, hc, h⟩ := Option.bind_eq_some_iff.1 h
    split at h
    case h_2 => cases h
    case h_1 hpc =>
      obtain ⟨sys, hsys, rfl⟩ := Option.map_eq_some_iff.1 h
      refine hI.more (fun o => (kind_next hsys o).trans (hI.kind o)) fun hcon => ?_
      have hold := hI.call c hc hcon
      refine ⟨?_, hold.length, hold.entries, hold.count, fun h => ?_, fun m h => ?_, fun h => ?_,
        fun _ => hold.alone (.inl hpc)⟩
      · simp [Call.Bounded, hold.msgOnly hpc]
      · cases h
      · cases h
      · cases h

/-- **The calls of a careful run are atomic and keep their time-out.** -/
theorem atomic_of_careful (t : Tid) (evtSync : ObjId) (objs : ObjId → Obj) (acts : List Act)
    (h : (lts t evtSync).AllSteps (Careful t) (init objs) acts) :
    (lts t evtSync).AllStates Atomic (init objs) acts :=
  LTS.allStates_of_allSteps (I := Inv t evtSync fun o => (objs o).data.kind)
    (fun _ hI => hI.atomic) (fun _ _ _ hI hcare hn => hI.next hcare hn) (inv_init objs) h

/-- An auto-reset event that is signalled; the other objects are events that are not. -/
def oneSignalled (o : ObjId) : Obj := Obj.createEvent false (o = 0)

/-- `n` steps of `WaitForMultipleObjects`. -/
def waits (n : ℕ) : List Act := List.replicate n (.wait .run 0)

/-- With the time-out 0 the event is taken, and then a message is found. -/
def poll : List Act :=
  [.enter [0] 0 true QS_ALLINPUT, .inner, .round 0 0] ++ waits 10 ++
    [.finish 0 false false, .inner, .round 0 0] ++ waits 3 ++ [.wait .timeout 0] ++ waits 3 ++
    [.finish 0 true false]

theorem atomic_poll :
    (∃ s, (lts 1 1).run (init oneSignalled) poll = some s ∧
      s.returned.map Call.ret = [WAIT_OBJECT_0]) ∧
    (lts 1 1).AllStates Atomic (init oneSignalled) poll :=
  ⟨⟨_, rfl, rfl⟩, atomic_of_careful 1 1 oneSignalled poll (by decide +kernel)⟩

/-- With the time-out 10 the event is taken, and no message comes for 10 ms. -/
def timesOut : List Act :=
  [.enter [0] 10 true QS_ALLINPUT, .inner, .round 10 0] ++ waits 10 ++
    [.finish 0 false false, .inner, .round 10 0] ++ waits 3 ++ [.wait .timeout 10] ++ waits 3 ++
    [.finish 10 false false]

/-- **A call that times out can keep a signal**, after waiting with its time-out twice. -/
theorem timeout_keeps : ∃ s c, (lts 1 1).run (init oneSignalled) timesOut = some s ∧
    s.returned = [c] ∧ c.Concerned ∧ c.ret = WAIT_TIMEOUT ∧ c.touched 0 = true ∧
    (s.sys.objs 0).tokens = 0 ∧ c.timeOuts.sum = 20 ∧ ¬ Atomic s := by
  refine ⟨_, _, rfl, rfl, by decide, rfl, rfl, rfl, rfl, fun h => ?_⟩
  have hall := h.returned _ (List.mem_singleton_self _) (by decide)
  exact absurd (hall.unchanged (.inl rfl) 0 (by decide)) (by decide)

end MsgWait

end Swinx
