import Swinx.LTS.Basic

/-!
# `RegisterWaitForSingleObject` and `UnregisterWait`

A registered wait is a `WaitItem` with a worker that waits for the object, runs the callback and
waits again.  `UnregisterWaitEx` closes the handle: `DestroyWaitItem` sets `stop`, joins the worker
if it is another thread and detaches it if it is the calling one, and deletes the item.

A step is one access of the worker to its item, one end of a wait or of a callback, one part of the
call of `UnregisterWaitEx`, or a change of the object that is waited for.  The call comes from
another thread, once `RegisterWaitForSingleObject` has returned, or from inside the callback.

* `waits_while_unsignalled` — without a signal the call that joins an infinite wait does not end.
* `sound_iff_awaited` — a run is sound in all its states if and only if its steps are orderly.
-/

namespace Swinx

namespace WaitItem

/-- `INFINITE` -/
def INFINITE : ℕ := 0xFFFFFFFF

/-- `WT_EXECUTEONLYONCE` -/
def WT_EXECUTEONLYONCE : ℕ := 0x00000008

/-- The argument `CompletionEvent` of `UnregisterWaitEx`. -/
inductive Completion
  | null
  | invalidHandleValue
  | event
  deriving DecidableEq, Repr

/-- What the two calls are given, and the kind of the object. -/
structure Config where
  milliseconds : ℕ
  flags : ℕ
  /-- A wait for the object resets it. -/
  autoReset : Bool
  completion : Completion
  deriving DecidableEq, Repr

/-- The wait has no timeout. -/
def Config.infinite (cfg : Config) : Bool := cfg.milliseconds == INFINITE

/-- The callback is to be run only once. -/
def Config.once (cfg : Config) : Bool := cfg.flags &&& WT_EXECUTEONLYONCE != 0

/-- Where the worker is in `RunWaitItem`. -/
inductive Worker
  /-- Before the test of `item->stop`. -/
  | test
  /-- In `WaitForSingleObject(item->object, item->milliseconds)`. -/
  | waiting
  /-- Before `item->callback(item->context, timedOut)`. -/
  | fired (timedOut : Bool)
  /-- In the callback. -/
  | callback (timedOut : Bool)
  /-- Before the test of `item->flags`. -/
  | flags
  /-- The thread has returned. -/
  | exited
  deriving DecidableEq, Repr

/-- The wait has ended, and the callback of it has not begun. -/
def Worker.isFired : Worker → Bool
  | .fired _ => true
  | _ => false

/-- The worker is in the callback. -/
def Worker.inCallback : Worker → Bool
  | .callback _ => true
  | _ => false

/-- No callback has begun since the last test of `item->stop`. -/
def Worker.before : Worker → Bool
  | .test | .waiting | .fired _ => true
  | _ => false

/-- Where the call of `UnregisterWaitEx` is. -/
inductive Call
  /-- It has not been made. -/
  | idle
  /-- In `item->worker.join()`. -/
  | joining
  /-- The item is deleted, before the `SetEvent`. -/
  | closed
  | returned
  deriving DecidableEq, Repr

/-- The item, its worker, the call, and the object. -/
structure State where
  worker : Worker
  call : Call
  stop : Bool
  /-- `item->worker` has been assigned and `RegisterWaitForSingleObject` has returned. -/
  assigned : Bool
  /-- The item has been deleted. -/
  freed : Bool
  /-- The object that is waited for. -/
  signalled : Bool
  /-- The completion event. -/
  event : Bool
  /-- The call was made inside the callback. -/
  inside : Bool
  /-- The waits that have succeeded or timed out. -/
  waits : ℕ
  /-- The callbacks that have begun. -/
  callbacks : ℕ
  /-- The worker has read the item after it was deleted. -/
  readFreed : Bool
  /-- A callback has begun after the call returned. -/
  late : Bool
  deriving DecidableEq, Repr

/-- `WaitForSingleObject` returns. -/
inductive Outcome
  | object
  | timeout
  /-- `WAIT_ABANDONED` or `WAIT_FAILED`. -/
  | failed
  deriving DecidableEq, Repr

/-- A step. -/
inductive Act
  /-- `RegisterWaitForSingleObject` assigns `item->worker` and returns. -/
  | assign
  /-- The worker reads its item and goes on; it reads `garbage` if the item has been deleted. -/
  | work (garbage : Bool)
  | waitReturns (outcome : Outcome)
  | callbackReturns
  | unregister (inside : Bool)
  /-- The join is over and the item is deleted. -/
  | joined
  /-- `UnregisterWaitEx` sets the event and returns. -/
  | complete
  | signal
  | reset
  deriving DecidableEq, Repr

/-- The thread of the worker has been made. -/
def init : State :=
  ⟨.test, .idle, false, false, false, false, false, false, 0, 0, false, false⟩

/-- The worker has read its item and is now at `w`. -/
def State.read (s : State) (w : Worker) : State :=
  { s with worker := w, readFreed := s.readFreed || s.freed }

/-- The next step of the worker that is not in the wait and not in the callback. -/
def State.work (s : State) (cfg : Config) (garbage : Bool) : Option State :=
  match s.worker with
  | .test =>
    some (s.read (if (if s.freed then garbage else s.stop) then .exited else .waiting))
  | .fired timedOut =>
    some { s.read (.callback timedOut) with
      callbacks := s.callbacks + 1, late := s.late || s.call == .returned }
  | .flags =>
    some (s.read (if (if s.freed then garbage else cfg.once) then .exited else .test))
  | _ => none

/-- The wait of the worker returns. -/
def State.waitReturns (s : State) (cfg : Config) : Outcome → Option State
  | .object =>
    if s.worker = .waiting ∧ s.signalled = true then
      some { s with
        worker := .fired false, signalled := !cfg.autoReset, waits := s.waits + 1 }
    else none
  | .timeout =>
    if s.worker = .waiting ∧ cfg.infinite = false then
      some { s with worker := .fired true, waits := s.waits + 1 }
    else none
  | .failed => if s.worker = .waiting then some { s with worker := .exited } else none

/-- `CloseHandle` calls `DestroyWaitItem`. -/
def State.unregister (s : State) (inside : Bool) : Option State :=
  if s.call = .idle then
    if inside then
      -- the worker itself: it is detached, and the item deleted under it
      if s.worker.inCallback then
        some { s with stop := true, freed := true, call := .closed, inside := true }
      else none
    else if s.assigned then some { s with stop := true, call := .joining }
    else none
  else none

/-- One step. -/
def next (cfg : Config) (s : State) : Act → Option State
  | .assign => if s.assigned then none else some { s with assigned := true }
  | .work garbage => s.work cfg garbage
  | .waitReturns outcome => s.waitReturns cfg outcome
  | .callbackReturns =>
    if s.worker.inCallback ∧ (s.inside = true → s.call = .returned) then
      some { s with worker := .flags }
    else none
  | .unregister inside => s.unregister inside
  | .joined =>
    if s.call = .joining ∧ s.worker = .exited then some { s with freed := true, call := .closed }
    else none
  | .complete =>
    if s.call = .closed then
      some { s with event := s.event || cfg.completion == .event, call := .returned }
    else none
  | .signal => some { s with signalled := true }
  | .reset => some { s with signalled := false }

/-- The registered wait as a transition system. -/
def lts (cfg : Config) : LTS State Act := ⟨next cfg⟩

/-- The call waits for the worker, and the worker waits without a timeout. -/
def State.Blocked (s : State) (cfg : Config) : Prop :=
  s.call = .joining ∧ s.worker = .waiting ∧ cfg.infinite = true

/-- **The registered wait is sound.** -/
structure Sound (cfg : Config) (s : State) : Prop where
  /-- At most one callback for each wait that has succeeded or timed out. -/
  perWait : s.callbacks ≤ s.waits
  /-- At most one callback for `WT_EXECUTEONLYONCE`. -/
  once : cfg.once = true → s.callbacks ≤ 1
  /-- No callback begins after the call has returned. -/
  noneAfter : s.late = false
  /-- The worker has not read the item after it was deleted. -/
  unread : s.readFreed = false
  /-- When the item is deleted, the worker has no read of it left. -/
  outlives : s.freed = true → s.worker = .exited
  /-- The call does not wait for a worker that waits for ever on an unsignalled object. -/
  released : s.Blocked cfg → s.signalled = true

/-- **The good steps**: the call is not made inside the callback; and when it joins a worker that
waits without a timeout, the object is signalled and stays so until the worker takes it. -/
def Orderly (cfg : Config) (s : State) : Act → Prop
  | .unregister inside =>
    inside = false ∧ (s.worker = .waiting → cfg.infinite = true → s.signalled = true)
  | .reset => ¬ s.Blocked cfg
  | _ => True

/-- A blocked call stays so in every step but a signal and a failure of the wait. -/
theorem State.Blocked.next {cfg : Config} {s s' : State} {act : Act} (hB : s.Blocked cfg)
    (hoff : s.signalled = false) (hsig : act ≠ .signal) (hfail : act ≠ .waitReturns .failed)
    (hn : WaitItem.next cfg s act = some s') : s'.Blocked cfg ∧ s'.signalled = false := by
  obtain ⟨hcall, hwork, hinf⟩ := hB
  cases act with
  | assign =>
    simp only [WaitItem.next, Option.ite_none_left_eq_some, Option.some.injEq] at hn
    obtain ⟨-, rfl⟩ := hn
    exact ⟨⟨hcall, hwork, hinf⟩, hoff⟩
  | waitReturns outcome =>
    cases outcome with
    | failed => exact absurd rfl hfail
    | object => simp [WaitItem.next, State.waitReturns, hoff] at hn
    | timeout => simp [WaitItem.next, State.waitReturns, hinf] at hn
  | signal => exact absurd rfl hsig
  | reset =>
    obtain rfl := Option.some.inj hn
    exact ⟨⟨hcall, hwork, hinf⟩, rfl⟩
  | work garbage => simp [WaitItem.next, State.work, hwork] at hn
  | callbackReturns => simp [WaitItem.next, hwork, Worker.inCallback] at hn
  | unregister inside => simp [WaitItem.next, State.unregister, hcall] at hn
  | joined => simp [WaitItem.next, hwork] at hn
  | complete => simp [WaitItem.next, hcall] at hn

/-- **Without a signal the call that joins an infinite wait does not end.** -/
theorem waits_while_unsignalled {cfg : Config} {s s' : State} {acts : List Act}
    (hB : s.Blocked cfg) (hoff : s.signalled = false)
    (hacts : ∀ act ∈ acts, act ≠ .signal ∧ act ≠ .waitReturns .failed)
    (hrun : (lts cfg).run s acts = some s') : s'.call = .joining := by
  induction acts generalizing s with
  | nil =>
    cases hrun
    exact hB.1
  | cons act acts ih =>
    obtain ⟨u, hu, hrun⟩ := LTS.run_cons_eq_some.1 hrun
    obtain ⟨hsig, hfail⟩ := hacts act List.mem_cons_self
    obtain ⟨hB', hoff'⟩ := hB.next hoff hsig hfail hu
    exact ih hB' hoff' (fun a ha => hacts a (List.mem_cons_of_mem _ ha)) hrun

/-- What is known in an orderly run. -/
structure Inv (cfg : Config) (s : State) : Prop where
  /-- The callback of the last wait may not have begun. -/
  perWait : s.callbacks + s.worker.isFired.toNat ≤ s.waits
  once : cfg.once = true → s.callbacks + s.worker.before.toNat ≤ 1
  late : s.late = false
  unread : s.readFreed = false
  freed : s.freed = true → s.worker = .exited
  /-- After the join the item is deleted. -/
  closed : s.call = .closed ∨ s.call = .returned → s.freed = true
  stop : s.call = .joining → s.stop = true
  released : s.Blocked cfg → s.signalled = true

theorem inv_init (cfg : Config) : Inv cfg init where
  perWait := by decide
  once := fun _ => by decide
  late := rfl
  unread := rfl
  freed := fun h => by cases h
  closed := fun h => by rcases h with h | h <;> cases h
  stop := fun h => by cases h
  released := fun h => by cases h.1

namespace Inv

variable {cfg : Config} {s s' : State}

theorem sound (hI : Inv cfg s) : Sound cfg s where
  perWait := by have := hI.perWait; omega
  once := fun h => by have := hI.once h; omega
  noneAfter := hI.late
  unread := hI.unread
  outlives := hI.freed
  released := hI.released

theorem alive (hI : Inv cfg s) (hw : s.worker ≠ .exited) :
    s.freed = false ∧ s.call ≠ .closed ∧ s.call ≠ .returned := by
  have hfreed : s.freed = false := Bool.eq_false_iff.2 fun h => hw (hI.freed h)
  refine ⟨hfreed, fun h => ?_, fun h => ?_⟩
  · rw [hI.closed (.inl h)] at hfreed
    cases hfreed
  · rw [hI.closed (.inr h)] at hfreed
    cases hfreed

theorem read_eq (hI : Inv cfg s) (hw : s.worker ≠ .exited) (w : Worker) :
    s.read w = { s with worker := w } := by
  simp [State.read, hI.unread, (hI.alive hw).1]

theorem move (hI : Inv cfg s) (hw : s.worker ≠ .exited) {w : Worker} (hfired : w.isFired = false)
    (hbefore : cfg.once = true → w.before = true → s.worker.before = true)
    (hwait : w = .waiting → s.call ≠ .joining) : Inv cfg { s with worker := w } where
  perWait := by
    have := hI.perWait
    simp only [hfired, Bool.toNat_false]
    omega
  once := fun h => by
    have := hI.once h
    show s.callbacks + w.before.toNat ≤ 1
    cases hb : w.before with
    | false =>
      rw [Bool.toNat_false]
      omega
    | true =>
      rw [hbefore h hb] at this
      exact this
  late := hI.late
  unread := hI.unread
  freed := fun h => by
    rw [(hI.alive hw).1] at h
    cases h
  closed := hI.closed
  stop := hI.stop
  released := fun h => absurd h.1 (hwait h.2.1)

theorem work (hI : Inv cfg s) {garbage : Bool} (hn : s.work cfg garbage = some s') :
    Inv cfg s' := by
  simp only [State.work] at hn
  cases hpc : s.worker with
  | test =>
    have hw : s.worker ≠ .exited := by rw [hpc]; simp
    have hread : (if s.freed then garbage else s.stop) = s.stop := by rw [(hI.alive hw).1]; rfl
    simp only [hpc, hI.read_eq hw, hread] at hn
    obtain rfl := Option.some.inj hn
    by_cases hstop : s.stop = true
    · rw [if_pos hstop]
      exact hI.move hw rfl (fun _ h => by cases h) (fun h => by cases h)
    · rw [if_neg hstop]
      exact hI.move hw rfl (fun _ _ => by rw [hpc]; rfl) (fun _ h => hstop (hI.stop h))
  | fired timedOut =>
    have hw : s.worker ≠ .exited := by rw [hpc]; simp
    simp only [hpc, hI.read_eq hw, Option.some.injEq] at hn
    subst hn
    have hper := hI.perWait
    have honce := hI.once
    rw [hpc] at hper honce
    exact
      { perWait := hper
        once := honce
        late := by simpa [hI.late] using (hI.alive hw).2.2
        unread := hI.unread
        freed := fun h => by
          rw [(hI.alive hw).1] at h
          cases h
        closed := hI.closed
        stop := hI.stop
        released := fun h => by cases h.2.1 }
  | flags =>
    have hw : s.worker ≠ .exited := by rw [hpc]; simp
    have hread : (if s.freed then garbage else cfg.once) = cfg.once := by
      rw [(hI.alive hw).1]
      rfl
    simp only [hpc, hI.read_eq hw, hread] at hn
    obtain rfl := Option.some.inj hn
    by_cases honce : cfg.once = true
    · rw [if_pos honce]
      exact hI.move hw rfl (fun _ h => by cases h) (fun h => by cases h)
    · rw [if_neg honce]
      exact hI.move hw rfl (fun h => absurd h honce) (fun h => by cases h)
  | waiting | callback timedOut | exited => simp [hpc] at hn

/-- A wait that has succeeded or timed out is one for the next callback. -/
theorem fire (hI : Inv cfg s) (hw : s.worker = .waiting) (timedOut signalled : Bool) :
    Inv cfg { s with
      worker := .fired timedOut, signalled := signalled, waits := s.waits + 1 } where
  perWait := by
    have := hI.perWait
    rw [hw] at this
    exact Nat.succ_le_succ this
  once := fun h => by
    have := hI.once h
    rw [hw] at this
    exact this
  late := hI.late
  unread := hI.unread
  freed := fun h => by
    have := hI.freed h
    rw [hw] at this
    cases this
  closed := hI.closed
  stop := hI.stop
  released := fun h => by cases h.2.1

theorem waitReturns (hI : Inv cfg s) {outcome : Outcome}
    (hn : s.waitReturns cfg outcome = some s') : Inv cfg s' := by
  cases outcome with
  | object =>
    simp only [State.waitReturns, Option.ite_none_right_eq_some, Option.some.injEq] at hn
    obtain ⟨⟨hw, -⟩, rfl⟩ := hn
    exact hI.fire hw _ _
  | timeout =>
    simp only [State.waitReturns, Option.ite_none_right_eq_some, Option.some.injEq] at hn
    obtain ⟨⟨hw, -⟩, rfl⟩ := hn
    exact hI.fire hw _ _
  | failed =>
    simp only [State.waitReturns, Option.ite_none_right_eq_some, Option.some.injEq] at hn
    obtain ⟨hw, rfl⟩ := hn
    exact hI.move (by rw [hw]; simp) rfl (fun _ h => by cases h) (fun h => by cases h)

/-- The call from another thread asks the worker to stop and joins it. -/
theorem join (hI : Inv cfg s)
    (hsig : s.worker = .waiting → cfg.infinite = true → s.signalled = true) :
    Inv cfg { s with stop := true, call := .joining } where
  perWait := hI.perWait
  once := hI.once
  late := hI.late
  unread := hI.unread
  freed := hI.freed
  closed := fun h => by rcases h with h | h <;> cases h
  stop := fun _ => rfl
  released := fun h => hsig h.2.1 h.2.2

theorem next (hI : Inv cfg s) {act : Act} (hgood : Orderly cfg s act)
    (hn : WaitItem.next cfg s act = some s') : Inv cfg s' := by
  cases act with
  | assign =>
    simp only [WaitItem.next, Option.ite_none_left_eq_some, Option.some.injEq] at hn
    obtain ⟨-, rfl⟩ := hn
    exact { hI with }
  | work garbage => exact hI.work hn
  | waitReturns outcome => exact hI.waitReturns hn
  | callbackReturns =>
    simp only [WaitItem.next, Option.ite_none_right_eq_some, Option.some.injEq] at hn
    obtain ⟨⟨hcall, -⟩, rfl⟩ := hn
    have hw : s.worker ≠ .exited := fun h => by
      rw [h] at hcall
      cases hcall
    exact hI.move hw rfl (fun _ h => by cases h) (fun h => by cases h)
  | unregister inside =>
    obtain ⟨rfl, hsig⟩ := hgood
    simp only [WaitItem.next, State.unregister, Option.ite_none_right_eq_some, Bool.false_eq_true,
      if_false, Option.some.injEq] at hn
    obtain ⟨-, -, rfl⟩ := hn
    exact hI.join hsig
  | joined =>
    simp only [WaitItem.next, Option.ite_none_right_eq_some, Option.some.injEq] at hn
    obtain ⟨⟨-, hexit⟩, rfl⟩ := hn
    exact { hI with
      freed := fun _ => hexit
      closed := fun _ => rfl
      stop := fun h => by cases h
      released := fun h => by cases h.1 }
  | complete =>
    simp only [WaitItem.next, Option.ite_none_right_eq_some, Option.some.injEq] at hn
    obtain ⟨hclosed, rfl⟩ := hn
    exact { hI with
      closed := fun _ => hI.closed (.inl hclosed)
      stop := fun h => by cases h
      released := fun h => by cases h.1 }
  | signal =>
    obtain rfl := Option.some.inj hn
    exact { hI with released := fun _ => rfl }
  | reset =>
    obtain rfl := Option.some.inj hn
    exact { hI with released := fun h => absurd h hgood }

/-- A step that is not orderly deletes the item under the worker, or makes the call depend on a
signal. -/
theorem orderly {act : Act} (hn : WaitItem.next cfg s act = some s')
    (hs : Sound cfg s') : Orderly cfg s act := by
  cases act with
  | unregister inside =>
    simp only [WaitItem.next, State.unregister, Option.ite_none_right_eq_some] at hn
    obtain ⟨-, hn⟩ := hn
    cases inside with
    | true =>
      simp only [if_true, Option.ite_none_right_eq_some, Option.some.injEq] at hn
      obtain ⟨hcall, rfl⟩ := hn
      have hexit : s.worker = .exited := hs.outlives rfl
      rw [hexit] at hcall
      cases hcall
    | false =>
      simp only [Bool.false_eq_true, if_false, Option.ite_none_right_eq_some,
        Option.some.injEq] at hn
      obtain ⟨-, rfl⟩ := hn
      exact ⟨rfl, fun hw hinf => hs.released ⟨rfl, hw, hinf⟩⟩
  | reset =>
    obtain rfl := Option.some.inj hn
    intro hB
    have hsig : false = true := hs.released hB
    cases hsig
  | _ => trivial

end Inv

/-- **`RegisterWaitForSingleObject` and `UnregisterWait`**: a run of a registered wait and of one
call that unregisters it is sound in all its states if and only if its steps are orderly. -/
theorem sound_iff_awaited (cfg : Config) (acts : List Act) :
    (lts cfg).AllStates (Sound cfg) init acts ↔ (lts cfg).AllSteps (Orderly cfg) init acts :=
  LTS.allStates_iff_allSteps (I := Inv cfg) (fun _ hI => hI.sound)
    (fun _ _ _ hI hgood hn => hI.next hgood hn) (fun _ _ _ _ hn hs => Inv.orderly hn hs)
    (inv_init cfg)

/-- A repeating wait without a timeout, unregistered without a completion event. -/
def forEver : Config := ⟨INFINITE, 0, true, .null⟩

/-- Another thread unregisters a wait whose object is not signalled. -/
def unregisterWaiting : List Act := [.assign, .work false, .unregister false]

/-- The callback unregisters its own wait and returns. -/
def unregisterInside : List Act :=
  [.assign, .work false, .signal, .waitReturns .object, .work false, .unregister true, .complete,
    .callbackReturns, .work false]

/-- The one call joins a worker that waits for ever, the other one deletes the item that the
worker goes on to read. -/
theorem joins_for_ever :
    (∃ s, (lts forEver).run init unregisterWaiting = some s ∧ s.Blocked forEver ∧
      s.signalled = false ∧ ¬ Sound forEver s) ∧
    ∃ s, (lts forEver).run init unregisterInside = some s ∧ s.readFreed = true ∧
      ¬ Sound forEver s := by
  refine ⟨⟨_, rfl, ⟨rfl, rfl, rfl⟩, rfl, fun h => ?_⟩, ⟨_, rfl, rfl, fun h => ?_⟩⟩
  · exact absurd (h.released ⟨rfl, rfl, rfl⟩) (by decide)
  · exact absurd h.unread (by decide)

end WaitItem

end Swinx
