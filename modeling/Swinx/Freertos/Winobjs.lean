import Mathlib
import Swinx.LTS.Basic
import Swinx.LTS.Sum

/-!
# The waits of the FreeRTOS port

`handle_ready` tests an object, and if it is told to, takes its signal.  `WaitForMultipleObjects`
tests in one call and takes in a second one, whose result it does not look at.  The test of a mutex
takes the semaphore and gives it back.  `waitMutliObjectAndMsg` takes each object that it finds
signalled, and for all objects goes over them a second time.

What each wait takes is noted in the state, and how many units each object has been given.

* `waits_of_orderly` — in orderly runs the waits are sound.
* `delivered_twice` — one unit for two waiters.
-/

namespace Swinx

namespace Winobjs

open Function (update update_of_ne update_self)

/-- What a handle stands for. -/
inductive Object
  | event (manual signaled : Bool)
  /-- The semaphore, and whether a wait has acquired the mutex. -/
  | mutex (sem owned : Bool)
  | semaphore (count max : ℤ)
  | thread (done joinSem : Bool)
  deriving DecidableEq, Repr

namespace Object

/-- The object is signalled. -/
def ready : Object → Bool
  | event _ signaled => signaled
  | mutex sem _ => sem
  | semaphore count _ => decide (0 < count)
  | thread done _ => done

/-- The signal is taken. -/
def take : Object → Object
  | event manual signaled => event manual (manual && signaled)
  | mutex _ _ => mutex false true
  | semaphore count max => semaphore (count - 1) max
  | thread done joinSem => thread done joinSem

/-- `sem_take` of a mutex that is tested -/
def hold : Object → Object
  | mutex _ owned => mutex false owned
  | x => x

/-- `sem_give` of a mutex that has been tested -/
def giveBack : Object → Object
  | mutex _ owned => mutex true owned
  | x => x

def isMutex : Object → Bool
  | mutex _ _ => true
  | _ => false

/-- A mutex that no wait has acquired. -/
def unowned : Object → Bool
  | mutex _ owned => !owned
  | _ => false

/-- A wait does not change the object. -/
def persistent : Object → Bool
  | event manual _ => manual
  | thread _ _ => true
  | _ => false

/-- An auto-reset event or a semaphore. -/
def counted : Object → Bool
  | event manual _ => !manual
  | semaphore _ _ => true
  | _ => false

/-- The units that can be taken. -/
def units : Object → ℕ
  | event manual signaled => (!manual && signaled).toNat
  | semaphore count _ => count.toNat
  | _ => 0

end Object

/-! ### Waits -/

def INFINITE : ℕ := 0xFFFFFFFF

/-- `WaitForSingleObject`, `WaitForMultipleObjects` and `waitMutliObjectAndMsg` -/
inductive Method
  | single
  | multiple
  | message
  deriving DecidableEq, Repr

/-- The arguments. -/
structure Call where
  method : Method
  handles : List ℕ
  waitAll : Bool
  timeout : ℕ
  deriving DecidableEq, Repr

/-- Where a wait is. -/
inductive Place
  /-- `WaitForMultipleObjects` is about to test the `i`-th object. -/
  | peek (i : ℕ)
  /-- It is about to give back the mutex that it has tested. -/
  | peekGive (i : ℕ)
  /-- It is about to take the `i`-th object. -/
  | consume (i : ℕ)
  /-- The time is tested. -/
  | check
  /-- `waitMutliObjectAndMsg`, the first and the second time -/
  | first (i : ℕ)
  | second (i : ℕ)
  | msgCheck
  /-- `WaitForSingleObject` with and without a time-out of 0 -/
  | probe
  | block
  | join
  deriving DecidableEq, Repr

/-- The first place of a round. -/
def Call.start (c : Call) : Place :=
  match c.method with
  | .single => if c.timeout = 0 then .probe else .block
  | .multiple => .peek 0
  | .message => .first 0

/-- What a wait returns. -/
inductive Result
  /-- `WAIT_OBJECT_0 + i` -/
  | object (i : ℕ)
  /-- `WAIT_OBJECT_0` for all objects -/
  | all
  | message
  | timeout
  deriving DecidableEq, Repr

/-- A wait. -/
structure Wait where
  call : Call
  place : Place
  /-- The signals that it has taken. -/
  took : List ℕ
  /-- It has found a mutex without a unit that nobody has acquired. -/
  missed : Bool
  deriving DecidableEq, Repr

/-- A wait that has returned. -/
structure Done where
  call : Call
  took : List ℕ
  missed : Bool
  result : Result
  deriving DecidableEq, Repr

namespace Wait

/-- The `i`-th object has been tested and is signalled. -/
def peeked (w : Wait) (i : ℕ) : Wait :=
  { w with place := if w.call.waitAll then .peek (i + 1) else .consume i }

/-- An object was not signalled. -/
def miss (w : Wait) (x : Object) (place : Place) : Wait :=
  { w with missed := w.missed || x.unowned, place }

/-- `handle_ready` with `consume` -/
def taken (w : Wait) (x : Object) (o : ℕ) (place : Place) : Wait :=
  { w with took := if x.ready then w.took ++ [o] else w.took, place }

end Wait

/-- The objects, the tasks, the waits that have returned, and how many units each object has been
given. -/
structure State (ι : Type*) where
  objects : ℕ → Object
  wait : ι → Option Wait
  log : List Done
  given : ℕ → ℕ

variable {ι : Type*}

def init (objects : ℕ → Object) : State ι :=
  ⟨objects, fun _ => none, [], fun o => (objects o).units⟩

namespace State

/-- An object changes. -/
def put (s : State ι) (o : ℕ) (x : Object) : State ι :=
  { s with
    objects := update s.objects o x
    given := update s.given o (s.given o + (x.units - (s.objects o).units)) }

/-- `handle_ready` with `consume` -/
def taken (s : State ι) (o : ℕ) : State ι :=
  if (s.objects o).ready then s.put o (s.objects o).take else s

variable [DecidableEq ι]

def goto (s : State ι) (t : ι) (w : Wait) : State ι :=
  { s with wait := update s.wait t (some w) }

/-- The wait returns. -/
def finish (s : State ι) (t : ι) (w : Wait) (result : Result) : State ι :=
  { s with
    wait := update s.wait t none
    log := s.log ++ [⟨w.call, w.took, w.missed, result⟩] }

/-- The next step of a wait; the time that has passed and the message queue decide where they are
tested. -/
def step (s : State ι) (t : ι) (w : Wait) (elapsed queued : Bool) : Option (State ι) :=
  match w.place with
  | .peek i =>
    match w.call.handles[i]? with
    | none => some (s.goto t { w with place := if w.call.waitAll then .consume 0 else .check })
    | some o =>
      if (s.objects o).ready then
        if (s.objects o).isMutex then
          some ((s.put o (s.objects o).hold).goto t { w with place := .peekGive i })
        else some (s.goto t (w.peeked i))
      else
        some (s.goto t (w.miss (s.objects o) (if w.call.waitAll then .check else .peek (i + 1))))
  | .peekGive i =>
    match w.call.handles[i]? with
    | none => none
    | some o => some ((s.put o (s.objects o).giveBack).goto t (w.peeked i))
  | .consume i =>
    match w.call.handles[i]? with
    | none => if w.call.waitAll then some (s.finish t w .all) else none
    | some o =>
      if w.call.waitAll then
        some ((s.taken o).goto t (w.taken (s.objects o) o (.consume (i + 1))))
      else some ((s.taken o).finish t (w.taken (s.objects o) o w.place) (.object i))
  | .check =>
    if w.call.timeout ≠ INFINITE ∧ (elapsed = true ∨ w.call.timeout = 0) then
      some (s.finish t w .timeout)
    else some (s.goto t { w with place := w.call.start })
  | .first i =>
    match w.call.handles[i]? with
    | none =>
      some (s.goto t { w with
        place := if w.call.waitAll ∧ 0 < w.call.handles.length then .second 0 else .msgCheck })
    | some o =>
      if (s.objects o).ready then
        if w.call.waitAll then
          some ((s.taken o).goto t (w.taken (s.objects o) o (.first (i + 1))))
        else some ((s.taken o).finish t (w.taken (s.objects o) o w.place) (.object i))
      else some (s.goto t (w.miss (s.objects o) (.first (i + 1))))
  | .second i =>
    match w.call.handles[i]? with
    | none => some (s.finish t w .all)
    | some o =>
      if (s.objects o).ready then
        some ((s.taken o).goto t (w.taken (s.objects o) o (.second (i + 1))))
      else some (s.goto t (w.miss (s.objects o) .msgCheck))
  | .msgCheck =>
    some (if queued then s.finish t w .message else s.goto t { w with place := .check })
  | .probe =>
    match w.call.handles[0]? with
    | none => none
    | some o =>
      if (s.objects o).ready then
        some ((s.taken o).finish t (w.taken (s.objects o) o w.place) (.object 0))
      else some (s.finish t (w.miss (s.objects o) w.place) .timeout)
  | .block =>
    match w.call.handles[0]? with
    | none => none
    | some o =>
      if (s.objects o).ready then
        some ((s.taken o).finish t (w.taken (s.objects o) o w.place) (.object 0))
      else
        match s.objects o with
        | .thread _ _ => some (s.goto t { w with place := .join })
        | _ => if elapsed then some (s.finish t w .timeout) else none
  | .join =>
    match w.call.handles[0]? with
    | none => none
    | some o =>
      match s.objects o with
      | .thread _ true =>
        some ((s.put o (.thread true false)).finish t { w with took := w.took ++ [o] } (.object 0))
      | _ => if elapsed then some (s.finish t w .timeout) else none

end State

/-- What else changes an object. -/
inductive Change
  | setEvent
  | resetEvent
  | releaseMutex
  | releaseSemaphore (releaseCount : ℤ)
  /-- The thread procedure returns: `done`, then `joinSem`. -/
  | threadDone
  | giveJoinSem
  deriving DecidableEq, Repr

/-- What becomes of the object. -/
def Object.change : Object → Change → Option Object
  | event manual _, .setEvent => some (event manual true)
  | event manual _, .resetEvent => some (event manual false)
  | mutex _ _, .releaseMutex => some (mutex true false)
  | semaphore count max, .releaseSemaphore releaseCount =>
    some (semaphore (min (count + releaseCount) max) max)
  | thread _ joinSem, .threadDone => some (thread true joinSem)
  | thread done _, .giveJoinSem => some (thread done true)
  | _, _ => none

/-- What happens. -/
inductive Act (ι : Type*)
  | call (t : ι) (c : Call)
  | step (t : ι) (elapsed queued : Bool)
  | change (o : ℕ) (ch : Change)
  deriving DecidableEq, Repr

/-- One step. -/
def next [DecidableEq ι] (s : State ι) : Act ι → Option (State ι)
  | .call t c => if s.wait t = none then some (s.goto t ⟨c, c.start, [], false⟩) else none
  | .step t elapsed queued => (s.wait t).bind fun w => s.step t w elapsed queued
  | .change o ch => ((s.objects o).change ch).map (s.put o)

/-- The program. -/
def lts [DecidableEq ι] : LTS (State ι) (Act ι) := ⟨next⟩

/-- The objects that are reported. -/
def Done.reported (d : Done) : List ℕ :=
  match d.result with
  | .object i => d.call.handles[i]?.toList
  | .all => d.call.handles
  | .message => []
  | .timeout => []

/-- A wait for any object, or for one. -/
def Call.Any (c : Call) : Prop := c.waitAll = false ∨ c.handles.length = 1

instance decidableAny (c : Call) : Decidable c.Any := inferInstanceAs (Decidable (_ ∨ _))

/-- What was taken is what is reported: each object once, and no other one. -/
structure Fair (persistent : ℕ → Bool) (took reported : List ℕ) : Prop where
  once : ∀ o ∈ reported, if persistent o then o ∈ took else took.count o = 1
  only : ∀ o, persistent o = false → o ∉ reported → o ∉ took

namespace State

def persistent (s : State ι) (o : ℕ) : Bool := (s.objects o).persistent

/-- How many waits have reported the object. -/
def delivered (s : State ι) (o : ℕ) : ℕ := s.log.countP fun d => decide (o ∈ d.reported)

end State

/-- **The waits are right.** -/
structure Sound (s : State ι) : Prop where
  fair : ∀ d ∈ s.log, Fair s.persistent d.took d.reported
  index : ∀ d ∈ s.log, ∀ i, d.result = .object i → i < d.call.handles.length
  /-- No test of a mutex lets a wait without a time-out fail. -/
  unmissed : ∀ d ∈ s.log, d.result = .timeout → d.call.timeout = 0 → d.call.Any →
    d.missed = false
  /-- No unit is delivered twice. -/
  units : ∀ o, (s.objects o).counted = true → s.delivered o ≤ s.given o

/-- A wait without a time-out finds a mutex without a unit only when it is acquired. -/
def Wait.Unpeeked (w : Wait) (x : Object) : Prop :=
  w.call.timeout = 0 ∧ w.call.Any → x.ready = false → x.unowned = false

/-- **Nobody comes between the test and the taking**: what is about to be taken is signalled, if
the wait has not taken it already; the first pass for all objects takes nothing, and the second
pass takes everything or nothing; and a wait without a time-out does not meet the test of a
mutex. -/
def Wait.Orderly (w : Wait) (s : State ι) : Prop :=
  match w.place with
  | .consume i => ∀ o ∈ w.call.handles[i]?,
      if s.persistent o then (s.objects o).ready = true ∨ o ∈ w.took
      else (s.objects o).ready = true ↔ o ∉ w.took
  | .peek i => ∀ o ∈ w.call.handles[i]?, w.Unpeeked (s.objects o)
  | .first i => ∀ o ∈ w.call.handles[i]?, w.Unpeeked (s.objects o) ∧
      (w.call.waitAll = true → s.persistent o = false → (s.objects o).ready = false)
  | .second i => ∀ o ∈ w.call.handles[i]?, w.Unpeeked (s.objects o) ∧
      ((s.objects o).ready = true → s.persistent o = false → o ∉ w.took) ∧
      ((s.objects o).ready = false → ∀ o' ∈ w.took, s.persistent o' = true)
  | .probe => ∀ o ∈ w.call.handles[0]?, w.Unpeeked (s.objects o)
  | _ => True

instance decidableUnpeeked (w : Wait) (x : Object) : Decidable (w.Unpeeked x) :=
  inferInstanceAs (Decidable (_ → _))

instance Wait.decidableOrderly (w : Wait) (s : State ι) : Decidable (w.Orderly s) := by
  unfold Wait.Orderly
  split <;> infer_instance

/-- The steps of orderly runs. -/
def Orderly (s : State ι) : Act ι → Prop
  | .step t _ _ => ∀ w ∈ s.wait t, w.Orderly s
  | _ => True

instance decidableOrderly (s : State ι) (act : Act ι) : Decidable (Orderly s act) := by
  unfold Orderly
  split <;> infer_instance

namespace Object

/-- What kind of object it is does not change. -/
def SameKind (x y : Object) : Prop := x.persistent = y.persistent ∧ x.counted = y.counted

theorem sameKind_take (x : Object) : x.take.SameKind x := by cases x <;> exact ⟨rfl, rfl⟩

theorem sameKind_hold (x : Object) : x.hold.SameKind x := by cases x <;> exact ⟨rfl, rfl⟩

theorem sameKind_giveBack (x : Object) : x.giveBack.SameKind x := by
  cases x <;> exact ⟨rfl, rfl⟩

theorem sameKind_change {x y : Object} {ch : Change} (h : x.change ch = some y) :
    y.SameKind x := by
  cases x <;> cases ch <;> first | cases h; exact ⟨rfl, rfl⟩ | cases h

theorem not_persistent_of_counted {x : Object} (h : x.counted = true) : x.persistent = false := by
  cases x <;> simp_all [counted, persistent]

theorem units_take {x : Object} (hcounted : x.counted = true) (hready : x.ready = true) :
    x.take.units + 1 = x.units := by
  cases x with
  | event manual signaled => cases manual <;> simp_all [counted, ready, take, units]
  | semaphore count max =>
    simp only [ready, decide_eq_true_eq] at hready
    simp only [take, units]
    omega
  | mutex => cases hcounted
  | thread => cases hcounted

end Object

variable {s s' : State ι} {t : ι} {w : Wait} {o : ℕ} {x : Object}

namespace State

theorem persistent_put (h : x.SameKind (s.objects o)) : (s.put o x).persistent = s.persistent := by
  funext o'
  unfold persistent put
  by_cases ho : o' = o
  · subst ho
    dsimp only
    rw [update_self]
    exact h.1
  · dsimp only
    rw [update_of_ne ho]

theorem counted_put (h : x.SameKind (s.objects o)) (o' : ℕ) :
    ((s.put o x).objects o').counted = (s.objects o').counted := by
  unfold put
  by_cases ho : o' = o
  · subst ho
    dsimp only
    rw [update_self]
    exact h.2
  · dsimp only
    rw [update_of_ne ho]

theorem persistent_taken (s : State ι) (o : ℕ) : (s.taken o).persistent = s.persistent := by
  unfold taken
  split_ifs
  · exact persistent_put (Object.sameKind_take _)
  · rfl

theorem counted_taken (s : State ι) (o o' : ℕ) :
    ((s.taken o).objects o').counted = (s.objects o').counted := by
  unfold taken
  split_ifs
  · exact counted_put (Object.sameKind_take _) o'
  · rfl

theorem wait_taken (s : State ι) (o : ℕ) : (s.taken o).wait = s.wait := by
  unfold taken
  split_ifs <;> rfl

theorem log_taken (s : State ι) (o : ℕ) : (s.taken o).log = s.log := by
  unfold taken
  split_ifs <;> rfl

end State

/-! ### What a wait has taken -/

theorem Fair.take {p : ℕ → Bool} {took l : List ℕ} {o : ℕ} {r : Bool} (h : Fair p took l)
    (hO : if p o then r = true ∨ o ∈ took else (r = true ↔ o ∉ took)) :
    Fair p (if r then took ++ [o] else took) (l ++ [o]) := by
  constructor
  · intro o' ho'
    by_cases hne : o' = o
    · subst hne
      cases hp : p o' with
      | true =>
        rw [hp, if_pos rfl] at hO
        rw [if_pos rfl]
        cases r with
        | true => simp
        | false => simpa using hO
      | false =>
        rw [hp, if_neg (by decide)] at hO
        rw [if_neg (by decide)]
        cases r with
        | true =>
          have hnot : o' ∉ took := hO.1 rfl
          simp [List.count_append, List.count_eq_zero_of_not_mem hnot]
        | false =>
          have hmem : o' ∈ took := by
            by_contra hm
            cases hO.2 hm
          have hl : o' ∈ l := by
            by_contra hl
            exact h.only o' hp hl hmem
          have hcount := h.once o' hl
          rw [hp, if_neg (by decide)] at hcount
          exact hcount
    · have hl : o' ∈ l := by
        rcases List.mem_append.1 ho' with hl | hl
        · exact hl
        · exact absurd (List.mem_singleton.1 hl) hne
      have honce := h.once o' hl
      have hcount : (if r then took ++ [o] else took).count o' = took.count o' := by
        split_ifs
        · rw [List.count_append, List.count_singleton, if_neg (by simpa using Ne.symm hne),
            add_zero]
        · rfl
      by_cases hp : p o' = true
      · rw [if_pos hp] at honce ⊢
        rw [← List.count_pos_iff, hcount]
        exact List.count_pos_iff.2 honce
      · rw [if_neg hp] at honce ⊢
        rw [hcount]
        exact honce
  · intro o' hp hno hmem
    rw [List.mem_append, not_or, List.mem_singleton] at hno
    have htook : o' ∈ took := by
      split_ifs at hmem
      · rcases List.mem_append.1 hmem with hm | hm
        · exact hm
        · exact absurd (List.mem_singleton.1 hm) hno.2
      · exact hmem
    exact h.only o' hp hno.1 htook

theorem Fair.nil {p : ℕ → Bool} {took : List ℕ} (h : ∀ o ∈ took, p o = true) : Fair p took [] :=
  ⟨fun _ ho => absurd ho List.not_mem_nil, fun o hp _ hm => by rw [h o hm] at hp; cases hp⟩

theorem Fair.persistent {p : ℕ → Bool} {took : List ℕ} {o : ℕ} (h : Fair p took [])
    (hp : p o = true) : Fair p (took ++ [o]) [] := by
  refine Fair.nil fun o' ho' => ?_
  rcases List.mem_append.1 ho' with hm | hm
  · by_contra hp'
    exact h.only o' (by simpa using hp') List.not_mem_nil hm
  · rw [List.mem_singleton.1 hm]
    exact hp

/-- The objects that the wait is about to report. -/
def Wait.covered (w : Wait) : List ℕ :=
  match w.place with
  | .consume i => if w.call.waitAll then w.call.handles.take i else []
  | .second i => w.call.handles.take i
  | _ => []

/-- **What holds of a wait.** -/
structure Wait.Good (persistent : ℕ → Bool) (w : Wait) : Prop where
  fair : Fair persistent w.took w.covered
  unmissed : w.call.timeout = 0 → w.call.Any → w.missed = false

/-- What a wait of a task has taken. -/
def carried (w? : Option Wait) (o : ℕ) : ℕ := w?.elim 0 fun w => w.took.count o

variable [Fintype ι]

/-- The units of an object: reported, taken but not reported, and left. -/
def State.account (s : State ι) (o : ℕ) : ℕ :=
  s.delivered o + ∑ t, carried (s.wait t) o + (s.objects o).units

/-- **The invariant of orderly runs.** -/
structure Inv (s : State ι) : Prop where
  fair : ∀ d ∈ s.log, Fair s.persistent d.took d.reported
  index : ∀ d ∈ s.log, ∀ i, d.result = .object i → i < d.call.handles.length
  unmissed : ∀ d ∈ s.log, d.result = .timeout → d.call.timeout = 0 → d.call.Any →
    d.missed = false
  good : ∀ t, ∀ w, s.wait t = some w → w.Good s.persistent
  units : ∀ o, (s.objects o).counted = true → s.account o ≤ s.given o

theorem Inv.sound (hI : Inv s) : Sound s where
  fair := hI.fair
  index := hI.index
  unmissed := hI.unmissed
  units o ho := by
    have := hI.units o ho
    unfold State.account at this
    omega

theorem inv_init (objects : ℕ → Object) : Inv (init objects : State ι) where
  fair _ h := absurd h List.not_mem_nil
  index _ h := absurd h List.not_mem_nil
  unmissed _ h := absurd h List.not_mem_nil
  good _ _ h := nomatch h
  units o _ := by simp [State.account, State.delivered, init, carried]

/-! ### Operations -/

theorem Inv.put (hI : Inv s) (h : x.SameKind (s.objects o)) : Inv (s.put o x) := by
  have hpersistent := State.persistent_put h
  refine
    { fair := by rw [hpersistent]; exact hI.fair
      index := hI.index
      unmissed := hI.unmissed
      good := by rw [hpersistent]; exact hI.good
      units := fun o' ho' => ?_ }
  rw [State.counted_put h] at ho'
  have hunits := hI.units o' ho'
  unfold State.account at hunits ⊢
  change s.delivered o' + ∑ t, carried (s.wait t) o' + (update s.objects o x o').units ≤
    update s.given o (s.given o + (x.units - (s.objects o).units)) o'
  by_cases ho : o' = o
  · subst ho
    rw [update_self, update_self]
    omega
  · rw [update_of_ne ho, update_of_ne ho]
    exact hunits

theorem Inv.taken (hI : Inv s) : Inv (s.taken o) := by
  unfold State.taken
  split_ifs
  · exact hI.put (Object.sameKind_take _)
  · exact hI

theorem Inv.count (hI : Inv s) (hw : s.wait t = some w) {took : List ℕ}
    (htook : took.count o = w.took.count o) (ho : (s.objects o).counted = true) :
    s.account o + took.count o ≤ s.given o + carried (s.wait t) o := by
  rw [hw, htook]
  exact Nat.add_le_add_right (hI.units o ho) _

theorem Inv.count_taken (hI : Inv s) (hw : s.wait t = some w) {o' : ℕ} (place : Place)
    (ho : ((s.taken o).objects o').counted = true) :
    (s.taken o).account o' + (w.taken (s.objects o) o place).took.count o' ≤
      (s.taken o).given o' + carried ((s.taken o).wait t) o' := by
  rw [State.counted_taken] at ho
  have hunits := hI.units o' ho
  rw [State.wait_taken, hw]
  change _ ≤ _ + w.took.count o'
  unfold State.account State.delivered at hunits ⊢
  rw [State.log_taken, State.wait_taken]
  unfold Wait.taken State.taken
  by_cases hready : (s.objects o).ready = true
  · rw [if_pos hready]
    dsimp only
    rw [if_pos hready, List.count_append, List.count_singleton]
    change _ + (update s.objects o (s.objects o).take o').units + _ ≤
      update s.given o (s.given o + ((s.objects o).take.units - (s.objects o).units)) o' +
        _
    by_cases hoo : o' = o
    · subst hoo
      rw [update_self, update_self, if_pos (beq_self_eq_true _)]
      have htake := Object.units_take ho hready
      omega
    · rw [update_of_ne hoo, update_of_ne hoo,
        if_neg (by simpa using Ne.symm hoo)]
      omega
  · rw [if_neg hready]
    dsimp only
    rw [if_neg hready]
    omega

variable [DecidableEq ι]

theorem Inv.goto (hI : Inv s) (hgood : w.Good s.persistent)
    (hcount : ∀ o, (s.objects o).counted = true →
      s.account o + w.took.count o ≤ s.given o + carried (s.wait t) o) : Inv (s.goto t w) := by
  refine
    { fair := hI.fair
      index := hI.index
      unmissed := hI.unmissed
      good := fun u w' hu => ?_
      units := fun o ho => ?_ }
  · change update s.wait t (some w) u = some w' at hu
    by_cases htu : u = t
    · subst htu
      rw [update_self] at hu
      exact Option.some.inj hu ▸ hgood
    · rw [update_of_ne htu] at hu
      exact hI.good u w' hu
  · have hsum := sum_update_add (fun _ w? => carried w? o) s.wait (Finset.mem_univ t) (some w)
    have hc := hcount o ho
    unfold State.account at hc ⊢
    change s.delivered o + ∑ u, carried (update s.wait t (some w) u) o +
      (s.objects o).units ≤ s.given o
    change _ + carried (s.wait t) o = _ + w.took.count o at hsum
    omega

theorem Inv.finish (hI : Inv s) {result : Result} {d : Done}
    (hd : d = ⟨w.call, w.took, w.missed, result⟩)
    (hfair : Fair s.persistent w.took d.reported)
    (hindex : ∀ i, result = .object i → i < w.call.handles.length)
    (hunmissed : w.call.timeout = 0 → w.call.Any → w.missed = false)
    (hcount : ∀ o, (s.objects o).counted = true →
      s.account o + w.took.count o ≤ s.given o + carried (s.wait t) o) :
    Inv (s.finish t w result) := by
  have hlog : ∀ d' ∈ (s.finish t w result).log, d' ∈ s.log ∨ d' = d := fun d' hd' => by
    rcases List.mem_append.1 hd' with h | h
    · exact .inl h
    · exact .inr ((List.mem_singleton.1 h).trans hd.symm)
  refine
    { fair := fun d' hd' => ?_
      index := fun d' hd' => ?_
      unmissed := fun d' hd' => ?_
      good := fun u w' hu => ?_
      units := fun o ho => ?_ }
  · rcases hlog d' hd' with h | rfl
    · exact hI.fair d' h
    · subst hd
      exact hfair
  · rcases hlog d' hd' with h | rfl
    · exact hI.index d' h
    · subst hd
      exact hindex
  · rcases hlog d' hd' with h | rfl
    · exact hI.unmissed d' h
    · subst hd
      exact fun _ => hunmissed
  · change update s.wait t none u = some w' at hu
    by_cases htu : u = t
    · subst htu
      rw [update_self] at hu
      cases hu
    · rw [update_of_ne htu] at hu
      exact hI.good u w' hu
  · have hsum := sum_update_add (fun _ w? => carried w? o) s.wait (Finset.mem_univ t) none
    have hc := hcount o ho
    have hreported : (s.finish t w result).delivered o ≤ s.delivered o + w.took.count o := by
      change List.countP _ (s.log ++ _) ≤ _
      rw [List.countP_append, ← hd, List.countP_singleton]
      split_ifs with hm
      · have hp : s.persistent o = false := Object.not_persistent_of_counted ho
        have honce := hfair.once o (of_decide_eq_true hm)
        rw [hp, if_neg (by decide)] at honce
        rw [honce]
        exact le_rfl
      · exact Nat.le_add_right _ _
    unfold State.account at hc ⊢
    change _ + ∑ u, carried (update s.wait t none u) o + (s.objects o).units ≤ s.given o
    change _ + carried (s.wait t) o = _ + 0 at hsum
    omega

theorem Inv.move (hI : Inv s) (hw : s.wait t = some w) {w' : Wait} (htook : w'.took = w.took)
    (hgood : w'.Good s.persistent) : Inv (s.goto t w') :=
  hI.goto hgood fun _ ho => hI.count hw (by rw [htook]) ho

theorem Inv.take (hI : Inv s) (hw : s.wait t = some w) (o : ℕ) {place : Place}
    (hgood : (w.taken (s.objects o) o place).Good s.persistent) :
    Inv ((s.taken o).goto t (w.taken (s.objects o) o place)) :=
  hI.taken.goto (by rwa [State.persistent_taken]) fun _ ho => hI.count_taken hw place ho

theorem Inv.leave (hI : Inv s) (hw : s.wait t = some w) {w' : Wait} {result : Result}
    (htook : w'.took = w.took)
    (hfair : Fair s.persistent w.took (Done.reported ⟨w'.call, w'.took, w'.missed, result⟩))
    (hindex : ∀ i, result ≠ .object i)
    (hunmissed : w'.call.timeout = 0 → w'.call.Any → w'.missed = false) :
    Inv (s.finish t w' result) :=
  hI.finish rfl (by rwa [htook]) (fun i h => absurd h (hindex i)) hunmissed
    fun _ ho => hI.count hw (by rw [htook]) ho

/-- A wait for any object returns with the object that it takes. -/
theorem Inv.report (hI : Inv s) (hw : s.wait t = some w) {i o : ℕ}
    (hcov : w.covered = []) (ho : w.call.handles[i]? = some o)
    (hO : if s.persistent o then (s.objects o).ready = true ∨ o ∈ w.took
      else (s.objects o).ready = true ↔ o ∉ w.took) :
    Inv ((s.taken o).finish t (w.taken (s.objects o) o w.place) (.object i)) := by
  have hg := hI.good t w hw
  have hfair := hg.fair
  rw [hcov] at hfair
  refine hI.taken.finish rfl ?_ (fun j hj => ?_) hg.unmissed
    fun _ ho => hI.count_taken hw w.place ho
  · rw [State.persistent_taken]
    change Fair s.persistent _ (w.call.handles[i]?.toList)
    rw [ho]
    exact hfair.take hO
  · cases hj
    exact (List.getElem?_eq_some_iff.1 ho).1

theorem Fair.ready {p : ℕ → Bool} {took : List ℕ} (h : Fair p took [])
    (hready : x.ready = true) :
    if p o then x.ready = true ∨ o ∈ took else (x.ready = true ↔ o ∉ took) := by
  split_ifs with hp
  · exact .inl hready
  · exact ⟨fun _ => h.only o (by simpa using hp) List.not_mem_nil, fun _ => hready⟩

theorem Wait.Good.miss {p : ℕ → Bool} (hg : w.Good p) {place : Place} (hU : w.Unpeeked x)
    (hready : ¬ x.ready = true) (hfair : Fair p w.took (w.miss x place).covered) :
    (w.miss x place).Good p where
  fair := hfair
  unmissed h0 hany := by
    change (w.missed || x.unowned) = false
    rw [hg.unmissed h0 hany, hU ⟨h0, hany⟩ (by simpa using hready)]
    rfl

theorem Inv.step_peek (hI : Inv s) (hw : s.wait t = some w) {i : ℕ} (hplace : w.place = .peek i)
    (hO : w.Orderly s) {elapsed queued : Bool} (h : s.step t w elapsed queued = some s') :
    Inv s' := by
  have hg := hI.good t w hw
  have hfair : Fair s.persistent w.took [] := by simpa [Wait.covered, hplace] using hg.fair
  simp only [State.step, hplace] at h
  simp only [Wait.Orderly, hplace] at hO
  split at h
  · cases h
    refine hI.move hw rfl ⟨?_, hg.unmissed⟩
    cases hall : w.call.waitAll <;> simpa [Wait.covered, hall] using hfair
  · rename_i o ho
    have hpeeked : (w.peeked i).Good s.persistent := by
      refine ⟨?_, hg.unmissed⟩
      cases hall : w.call.waitAll <;> simpa [Wait.peeked, Wait.covered, hall] using hfair
    by_cases hready : (s.objects o).ready = true
    · rw [if_pos hready] at h
      split_ifs at h with hmutex
      · cases h
        have hkind := (s.objects o).sameKind_hold
        refine (hI.put hkind).move hw rfl ?_
        rw [State.persistent_put hkind]
        exact ⟨hfair, hg.unmissed⟩
      · cases h
        exact hI.move hw rfl hpeeked
    · rw [if_neg hready] at h
      cases h
      refine hI.move hw rfl (hg.miss (hO o ho) hready ?_)
      cases hall : w.call.waitAll <;> simpa [Wait.miss, Wait.covered, hall] using hfair

theorem Inv.step_peekGive (hI : Inv s) (hw : s.wait t = some w) {i : ℕ}
    (hplace : w.place = .peekGive i) {elapsed queued : Bool}
    (h : s.step t w elapsed queued = some s') : Inv s' := by
  have hg := hI.good t w hw
  have hfair : Fair s.persistent w.took [] := by simpa [Wait.covered, hplace] using hg.fair
  simp only [State.step, hplace] at h
  split at h
  · cases h
  · rename_i o ho
    cases h
    have hkind := (s.objects o).sameKind_giveBack
    refine (hI.put hkind).move hw rfl ?_
    rw [State.persistent_put hkind]
    refine ⟨?_, hg.unmissed⟩
    cases hall : w.call.waitAll <;> simpa [Wait.peeked, Wait.covered, hall] using hfair

theorem take_succ_handles {l : List ℕ} {i o : ℕ} (h : l[i]? = some o) :
    l.take (i + 1) = l.take i ++ [o] := by
  rw [List.take_add_one, h]
  rfl

theorem take_of_none {l : List ℕ} {i : ℕ} (h : l[i]? = none) : l.take i = l :=
  List.take_of_length_le (List.getElem?_eq_none_iff.1 h)

theorem Inv.step_consume (hI : Inv s) (hw : s.wait t = some w) {i : ℕ}
    (hplace : w.place = .consume i) (hO : w.Orderly s) {elapsed queued : Bool}
    (h : s.step t w elapsed queued = some s') : Inv s' := by
  have hg := hI.good t w hw
  have hfair := hg.fair
  simp only [State.step, hplace] at h
  simp only [Wait.Orderly, hplace] at hO
  simp only [Wait.covered, hplace] at hfair
  split at h
  · rename_i hnone
    split_ifs at h with hall
    cases h
    rw [if_pos hall, take_of_none hnone] at hfair
    exact hI.leave hw rfl hfair (fun _ => Result.noConfusion) hg.unmissed
  · rename_i o ho
    by_cases hall : w.call.waitAll = true
    · rw [if_pos hall] at h
      cases h
      rw [if_pos hall] at hfair
      refine hI.take hw o ⟨?_, hg.unmissed⟩
      simp only [Wait.covered, Wait.taken, hall, if_true, take_succ_handles ho]
      exact hfair.take (hO o ho)
    · rw [if_neg hall] at h
      cases h
      rw [if_neg hall] at hfair
      rw [← hplace]
      exact hI.report hw (by simp [Wait.covered, hplace, hall]) ho (hO o ho)

theorem Inv.step_check (hI : Inv s) (hw : s.wait t = some w) (hplace : w.place = .check)
    {elapsed queued : Bool} (h : s.step t w elapsed queued = some s') : Inv s' := by
  have hg := hI.good t w hw
  have hfair : Fair s.persistent w.took [] := by simpa [Wait.covered, hplace] using hg.fair
  simp only [State.step, hplace] at h
  split_ifs at h
  · cases h
    exact hI.leave hw rfl hfair (fun _ => Result.noConfusion) hg.unmissed
  · cases h
    refine hI.move hw rfl ⟨?_, hg.unmissed⟩
    cases hm : w.call.method with
    | single =>
      by_cases h0 : w.call.timeout = 0 <;> simpa [Wait.covered, Call.start, hm, h0] using hfair
    | multiple => simpa [Wait.covered, Call.start, hm] using hfair
    | message => simpa [Wait.covered, Call.start, hm] using hfair

theorem Inv.step_first (hI : Inv s) (hw : s.wait t = some w) {i : ℕ} (hplace : w.place = .first i)
    (hO : w.Orderly s) {elapsed queued : Bool} (h : s.step t w elapsed queued = some s') :
    Inv s' := by
  have hg := hI.good t w hw
  have hfair : Fair s.persistent w.took [] := by simpa [Wait.covered, hplace] using hg.fair
  simp only [State.step, hplace] at h
  simp only [Wait.Orderly, hplace] at hO
  split at h
  · cases h
    refine hI.move hw rfl ⟨?_, hg.unmissed⟩
    by_cases hall : w.call.waitAll = true ∧ 0 < w.call.handles.length
    · simpa [Wait.covered, hall] using hfair
    · rw [if_neg hall]
      exact hfair
  · rename_i o ho
    obtain ⟨hU, hfirst⟩ := hO o ho
    by_cases hready : (s.objects o).ready = true
    · rw [if_pos hready] at h
      by_cases hall : w.call.waitAll = true
      · rw [if_pos hall] at h
        cases h
        refine hI.take hw o ⟨?_, hg.unmissed⟩
        -- only a signal that stays is taken here
        have hp : s.persistent o = true := by
          by_contra hp
          rw [hfirst hall (by simpa using hp)] at hready
          cases hready
        simp only [Wait.covered, Wait.taken, hready, if_true]
        exact hfair.persistent hp
      · rw [if_neg hall] at h
        cases h
        rw [← hplace]
        exact hI.report hw (by simp [Wait.covered, hplace]) ho (hfair.ready hready)
    · rw [if_neg hready] at h
      cases h
      exact hI.move hw rfl (hg.miss hU hready hfair)

theorem Inv.step_second (hI : Inv s) (hw : s.wait t = some w) {i : ℕ}
    (hplace : w.place = .second i) (hO : w.Orderly s) {elapsed queued : Bool}
    (h : s.step t w elapsed queued = some s') : Inv s' := by
  have hg := hI.good t w hw
  have hfair := hg.fair
  simp only [State.step, hplace] at h
  simp only [Wait.Orderly, hplace] at hO
  simp only [Wait.covered, hplace] at hfair
  split at h
  · rename_i hnone
    cases h
    rw [take_of_none hnone] at hfair
    exact hI.leave hw rfl hfair (fun _ => Result.noConfusion) hg.unmissed
  · rename_i o ho
    obtain ⟨hU, htake, hfail⟩ := hO o ho
    by_cases hready : (s.objects o).ready = true
    · rw [if_pos hready] at h
      cases h
      refine hI.take hw o ⟨?_, hg.unmissed⟩
      simp only [Wait.covered, Wait.taken, take_succ_handles ho]
      refine hfair.take ?_
      split_ifs with hp
      · exact .inl hready
      · exact ⟨fun _ => htake hready (by simpa using hp), fun _ => hready⟩
    · rw [if_neg hready] at h
      cases h
      refine hI.move hw rfl (hg.miss hU hready (Fair.nil (hfail (by simpa using hready))))

theorem Inv.step_msgCheck (hI : Inv s) (hw : s.wait t = some w) (hplace : w.place = .msgCheck)
    {elapsed queued : Bool} (h : s.step t w elapsed queued = some s') : Inv s' := by
  have hg := hI.good t w hw
  have hfair : Fair s.persistent w.took [] := by simpa [Wait.covered, hplace] using hg.fair
  simp only [State.step, hplace] at h
  cases h
  split_ifs
  · exact hI.leave hw rfl hfair (fun _ => Result.noConfusion) hg.unmissed
  · exact hI.move hw rfl ⟨hfair, hg.unmissed⟩

theorem Inv.step_probe (hI : Inv s) (hw : s.wait t = some w) (hplace : w.place = .probe)
    (hO : w.Orderly s) {elapsed queued : Bool} (h : s.step t w elapsed queued = some s') :
    Inv s' := by
  have hg := hI.good t w hw
  have hfair : Fair s.persistent w.took [] := by simpa [Wait.covered, hplace] using hg.fair
  simp only [State.step, hplace] at h
  simp only [Wait.Orderly, hplace] at hO
  split at h
  · cases h
  · rename_i o ho
    split_ifs at h with hready
    · cases h
      rw [← hplace]
      exact hI.report hw (by simp [Wait.covered, hplace]) ho (hfair.ready hready)
    · cases h
      have hmiss : (w.miss (s.objects o) .probe).Good s.persistent := hg.miss (hO o ho) hready hfair
      exact hI.leave hw rfl hfair (fun _ => Result.noConfusion) hmiss.unmissed

theorem Inv.step_block (hI : Inv s) (hw : s.wait t = some w) (hplace : w.place = .block)
    {elapsed queued : Bool} (h : s.step t w elapsed queued = some s') : Inv s' := by
  have hg := hI.good t w hw
  have hfair : Fair s.persistent w.took [] := by simpa [Wait.covered, hplace] using hg.fair
  simp only [State.step, hplace] at h
  split at h
  · cases h
  · rename_i o ho
    by_cases hready : (s.objects o).ready = true
    · rw [if_pos hready] at h
      cases h
      rw [← hplace]
      exact hI.report hw (by simp [Wait.covered, hplace]) ho (hfair.ready hready)
    · rw [if_neg hready] at h
      split at h
      · cases h
        exact hI.move hw rfl ⟨hfair, hg.unmissed⟩
      · split_ifs at h
        cases h
        exact hI.leave hw rfl hfair (fun _ => Result.noConfusion) hg.unmissed

theorem Inv.step_join (hI : Inv s) (hw : s.wait t = some w) (hplace : w.place = .join)
    {elapsed queued : Bool} (h : s.step t w elapsed queued = some s') : Inv s' := by
  have hg := hI.good t w hw
  have hfair : Fair s.persistent w.took [] := by simpa [Wait.covered, hplace] using hg.fair
  simp only [State.step, hplace] at h
  split at h
  · cases h
  · rename_i o ho
    split at h
    · rename_i done hthread
      cases h
      have hkind : (Object.thread true false).SameKind (s.objects o) := by
        rw [hthread]
        exact ⟨rfl, rfl⟩
      have hp : s.persistent o = true := by
        unfold State.persistent
        rw [hthread]
        rfl
      refine (hI.put hkind).finish rfl ?_ (fun j hj => ?_) hg.unmissed fun o' ho' => ?_
      · rw [State.persistent_put hkind]
        change Fair s.persistent _ (w.call.handles[0]?.toList)
        rw [ho]
        constructor
        · intro o' ho'
          rw [List.mem_singleton.1 ho', if_pos hp]
          simp
        · exact fun o' hp' _ => (hfair.persistent hp).only o' hp' List.not_mem_nil
      · cases hj
        exact (List.getElem?_eq_some_iff.1 ho).1
      · have hne : o ≠ o' := by
          rintro rfl
          rw [State.counted_put hkind, hthread] at ho'
          cases ho'
        have hcount : (w.took ++ [o]).count o' = w.took.count o' := by
          rw [List.count_append, List.count_singleton, if_neg (by simpa using hne), add_zero]
        exact (hI.put hkind).count hw hcount ho'
    · split_ifs at h
      cases h
      exact hI.leave hw rfl hfair (fun _ => Result.noConfusion) hg.unmissed

/-- **Orderly steps keep the invariant.** -/
theorem Inv.next {act : Act ι} (hI : Inv s) (hO : Orderly s act) (h : next s act = some s') :
    Inv s' := by
  cases act with
  | call t c =>
    simp only [Winobjs.next] at h
    split_ifs at h with hw
    cases h
    refine hI.goto ⟨?_, fun _ _ => rfl⟩ fun o ho => ?_
    · have hnil : Wait.covered ⟨c, c.start, [], false⟩ = [] := by
        cases hm : c.method with
        | single => by_cases h0 : c.timeout = 0 <;> simp [Wait.covered, Call.start, hm, h0]
        | multiple => simp [Wait.covered, Call.start, hm]
        | message => simp [Wait.covered, Call.start, hm]
      rw [hnil]
      exact Fair.nil fun o ho => absurd ho List.not_mem_nil
    · rw [hw]
      exact hI.units o ho
  | step t elapsed queued =>
    simp only [Winobjs.next, Option.bind_eq_some_iff] at h
    obtain ⟨w, hw, hstep⟩ := h
    have hO' : w.Orderly s := hO w hw
    cases hplace : w.place with
    | peek i => exact hI.step_peek hw hplace hO' hstep
    | peekGive i => exact hI.step_peekGive hw hplace hstep
    | consume i => exact hI.step_consume hw hplace hO' hstep
    | check => exact hI.step_check hw hplace hstep
    | first i => exact hI.step_first hw hplace hO' hstep
    | second i => exact hI.step_second hw hplace hO' hstep
    | msgCheck => exact hI.step_msgCheck hw hplace hstep
    | probe => exact hI.step_probe hw hplace hO' hstep
    | block => exact hI.step_block hw hplace hstep
    | join => exact hI.step_join hw hplace hstep
  | change o ch =>
    simp only [Winobjs.next, Option.map_eq_some_iff] at h
    obtain ⟨x, hx, rfl⟩ := h
    exact hI.put (Object.sameKind_change hx)

/-- **The waits are right in orderly runs.** -/
theorem waits_of_orderly (objects : ℕ → Object) (acts : List (Act ι))
    (h : lts.AllSteps Orderly (init objects : State ι) acts) :
    lts.AllStates Sound (init objects : State ι) acts :=
  LTS.allStates_of_allSteps (I := Inv) (fun _ hI => hI.sound) (fun _ _ _ hI hO hn => hI.next hO hn)
    (inv_init objects) h

/-- An auto-reset event, a mutex and a semaphore. -/
def sampleObjects (o : ℕ) : Object :=
  if o = 0 then .event false true else if o = 1 then .mutex true false else .semaphore 1 1

/-- One task waits for the event and the mutex, another one with the message loop for the
semaphore. -/
def sampleActs (t u : ι) : List (Act ι) :=
  [.call t ⟨.multiple, [0, 1], true, 5⟩, .step t false false, .step t false false,
    .call u ⟨.message, [2], false, 0⟩, .step t false false, .step u false true,
    .step t false false, .step t false false, .step t false false, .step t false false,
    .change 1 .releaseMutex]

theorem waits_sample : lts.AllStates Sound (init sampleObjects) (sampleActs false true) :=
  waits_of_orderly sampleObjects _ (by decide)

/-- Two tasks wait for the event. -/
def twiceActs (t u : ι) : List (Act ι) :=
  [.call t ⟨.multiple, [0], false, INFINITE⟩, .call u ⟨.multiple, [0], false, INFINITE⟩,
    .step t false false, .step u false false, .step t false false, .step u false false]

/-- **One signal for two waiters**: both test the event before one of them takes it, and both
report it. -/
theorem delivered_twice :
    ∃ s, lts.run (init sampleObjects) (twiceActs false true) = some s ∧
      s.delivered 0 = 2 ∧ s.given 0 = 1 ∧ ¬ Sound s :=
  ⟨_, rfl, rfl, rfl, fun h => absurd (h.units 0 rfl) (by decide)⟩

end Winobjs

end Swinx
