import Mathlib.Data.Nat.Basic
import Mathlib.Logic.Function.Basic
import Mathlib.Order.Basic
import Mathlib.Tactic.SplitIfs
import Swinx.LTS.Basic

/-!
# Timer queues

Every timer of a `TimerQueue` has a worker thread.  It computes its deadline once, waits for it or
for `cancelled`, and drops the lock before it calls back.  `ChangeTimer` writes `DueTime` and
`Period`; `DeleteTimer` sets `cancelled` and erases the timer from the map.  The functions of the
interface run one at a time, under `s_timerQueueMutex`.

* `timers_of_orderly` — in orderly runs every timer keeps to its settings.
* `early_after_change` — a timer that is put off runs at its old time.
-/

namespace Swinx

namespace TimerQueue

/-- How far the worker of a timer is. -/
inductive Phase
  /-- It has not computed its deadline. -/
  | fresh
  | waiting (deadline : ℕ)
  /-- It has seen its deadline pass and read `Period`; the callback is about to start. -/
  | ready (deadline period : ℕ)
  /-- The callback runs. -/
  | running (deadline period : ℕ)
  | done
  deriving DecidableEq, Repr

/-- A start of the callback. -/
structure Run where
  /-- When it was. -/
  time : ℕ
  /-- `DueTime + (n-1) * Period` after the settings came into force. -/
  due : ℕ
  /-- `Period` in force. -/
  period : ℕ
  /-- How often the callback had been started under these settings. -/
  earlier : ℕ
  /-- `DeleteTimerQueueTimer` had returned. -/
  deleted : Bool
  deriving DecidableEq, Repr

/-- `TimerInfo`, its place in the map, and what has happened to it. -/
structure Timer where
  /-- The queue it belongs to. -/
  queue : ℕ
  dueTime : ℕ
  period : ℕ
  cancelled : Bool
  /-- It is in `m_timers`. -/
  mapped : Bool
  phase : Phase
  /-- When the settings came into force. -/
  since : ℕ
  /-- The starts of the callback since then. -/
  runs : ℕ
  /-- The last change came when the worker had its deadline. -/
  changed : Bool
  /-- `DeleteTimerQueueTimer` has returned. -/
  deleted : Bool
  log : List Run
  deriving DecidableEq, Repr

namespace Timer

/-- The next start of the callback must not be before this time. -/
def due (t : Timer) : ℕ := t.since + t.dueTime + t.runs * t.period

/-- `CreateTimer`; without the waitable timer no worker is started. -/
def createTimer (now queue dueTime period : ℕ) (armed : Bool) : Timer where
  queue := queue
  dueTime := dueTime
  period := period
  cancelled := false
  mapped := true
  phase := if armed then .fresh else .done
  since := now
  runs := 0
  changed := false
  deleted := false
  log := []

/-- `ChangeTimer` -/
def changeTimer (t : Timer) (now dueTime period : ℕ) : Timer :=
  { t with
    dueTime := dueTime
    period := period
    since := now
    runs := 0
    changed := t.phase ≠ .fresh && t.phase ≠ .done }

/-- `cancel`, and the timer leaves the map. -/
def cancel (t : Timer) : Timer := { t with cancelled := true, mapped := false }

/-- The worker computes its deadline. -/
def begin (t : Timer) (now : ℕ) : Option Timer :=
  match t.phase with
  | .fresh => some { t with phase := .waiting (now + t.dueTime) }
  | _ => none

/-- `wait_until` returns. -/
def wake (t : Timer) (now : ℕ) : Option Timer :=
  match t.phase with
  | .waiting deadline =>
    if t.cancelled then some { t with phase := .done }
    else if deadline ≤ now then some { t with phase := .ready deadline t.period }
    else none
  | _ => none

/-- The callback starts. -/
def start (t : Timer) (now : ℕ) : Option Timer :=
  match t.phase with
  | .ready deadline period =>
    some { t with
      phase := .running deadline period
      runs := t.runs + 1
      log := ⟨now, t.due, t.period, t.runs, t.deleted⟩ :: t.log }
  | _ => none

/-- The callback returns. -/
def finish (t : Timer) : Option Timer :=
  match t.phase with
  | .running deadline period =>
    some { t with
      phase := if t.cancelled ∨ period = 0 then .done else .waiting (deadline + period) }
  | _ => none

end Timer

variable {ι : Type*}

/-- The clock and the timers. -/
structure State (ι : Type*) where
  now : ℕ
  timers : ι → Option Timer

/-- No timer has been created. -/
def init : State ι := ⟨0, fun _ => none⟩

/-- The steps of the callers and of the workers. -/
inductive Act (ι : Type*)
  | tick (d : ℕ)
  /-- `CreateTimerQueueTimer` -/
  | createTimer (i : ι) (queue dueTime period : ℕ) (armed : Bool)
  /-- `ChangeTimerQueueTimer` -/
  | changeTimer (i : ι) (dueTime period : ℕ)
  /-- `DeleteTimerQueueTimer` -/
  | deleteTimer (i : ι)
  /-- `DeleteTimerQueue` -/
  | deleteQueue (queue : ℕ)
  | begin (i : ι)
  | wake (i : ι)
  | start (i : ι)
  | finish (i : ι)
  deriving DecidableEq, Repr

variable [DecidableEq ι]

/-- A timer makes a step. -/
def State.step (s : State ι) (i : ι) (f : Timer → Option Timer) : Option (State ι) :=
  ((s.timers i).bind f).map fun t => { s with timers := Function.update s.timers i (some t) }

/-- One step. -/
def next (s : State ι) : Act ι → Option (State ι)
  | .tick d => some { s with now := s.now + d }
  | .createTimer i queue dueTime period armed =>
    if s.timers i = none then
      some { s with
        timers := Function.update s.timers i
          (some (.createTimer s.now queue dueTime period armed)) }
    else none
  | .changeTimer i dueTime period =>
    s.step i fun t => if t.mapped then some (t.changeTimer s.now dueTime period) else none
  | .deleteTimer i =>
    s.step i fun t => if t.mapped then some { t.cancel with deleted := true } else none
  | .deleteQueue queue =>
    some { s with
      timers := fun i => (s.timers i).map fun t =>
        if t.queue = queue ∧ t.mapped then t.cancel else t }
  | .begin i => s.step i fun t => t.begin s.now
  | .wake i => s.step i fun t => t.wake s.now
  | .start i => s.step i fun t => t.start s.now
  | .finish i => s.step i Timer.finish

/-- The timers as a transition system. -/
def lts : LTS (State ι) (Act ι) := ⟨next⟩

/-- **A timer keeps to its settings.** -/
structure Timer.Sound (t : Timer) : Prop where
  /-- No start is before its time. -/
  early : ∀ r ∈ t.log, r.due ≤ r.time
  /-- A timer without a period starts once. -/
  once : ∀ r ∈ t.log, r.period = 0 → r.earlier = 0
  /-- Nothing starts after `DeleteTimerQueueTimer`. -/
  deleted : ∀ r ∈ t.log, r.deleted = false
  /-- The next run after a change is the one that was asked for. -/
  governed : t.changed = true → t.runs = 0 → ∀ deadline, t.phase = .waiting deadline →
    deadline = t.since + t.dueTime

/-- Every timer keeps to its settings. -/
def Sound (s : State ι) : Prop := ∀ i, ∀ t ∈ s.timers i, t.Sound

/-- The worker's own schedule is that of the new settings. -/
def Timer.Agrees (t : Timer) (now dueTime period : ℕ) : Prop :=
  match t.phase with
  | .fresh => True
  | .waiting deadline => deadline = now + dueTime
  | .ready deadline p => dueTime = 0 ∧ (p = 0 ∨ period ≠ 0 ∧ deadline + p = now + period)
  | .running deadline p => p = 0 ∨ deadline + p = now + dueTime
  | .done => True

/-- The callback is about to start. -/
def Timer.aboutToStart (t : Timer) : Bool :=
  match t.phase with
  | .ready _ _ => true
  | _ => false

/-- **What a change or a deletion must not meet**: a worker with another deadline, and a callback
that is about to start. -/
def Orderly (s : State ι) : Act ι → Prop
  | .changeTimer i dueTime period =>
    ∀ t ∈ s.timers i, t.mapped = true → t.Agrees s.now dueTime period
  | .deleteTimer i => ∀ t ∈ s.timers i, t.mapped = true → t.aboutToStart = false
  | _ => True

/-- What the phase of a timer says about its schedule. -/
def Timer.Scheduled (t : Timer) (now : ℕ) : Prop :=
  match t.phase with
  | .fresh => t.runs = 0 ∧ t.changed = false
  | .waiting deadline => t.due ≤ deadline ∧ (t.runs = 0 ∨ t.period ≠ 0) ∧
    (t.changed = true → t.runs = 0 → deadline = t.since + t.dueTime)
  | .ready deadline p => t.due ≤ now ∧ (t.runs = 0 ∨ t.period ≠ 0) ∧ t.deleted = false ∧
    (p = 0 ∨ t.period ≠ 0 ∧ t.due + t.period ≤ deadline + p)
  | .running deadline p => p = 0 ∨ t.due ≤ deadline + p ∧ (t.runs = 0 ∨ t.period ≠ 0) ∧
    (t.changed = true → t.runs = 0 → deadline + p = t.since + t.dueTime)
  | .done => True

/-- **The invariant of a timer.** -/
structure Timer.Inv (t : Timer) (now : ℕ) : Prop where
  early : ∀ r ∈ t.log, r.due ≤ r.time
  once : ∀ r ∈ t.log, r.period = 0 → r.earlier = 0
  deleted : ∀ r ∈ t.log, r.deleted = false
  since : t.since ≤ now
  cancelled : t.deleted = true → t.cancelled = true
  unmapped : t.deleted = true → t.mapped = false
  scheduled : t.Scheduled now

namespace Timer.Inv

variable {t t' : Timer} {now : ℕ}

theorem sound (h : t.Inv now) : t.Sound where
  early := h.early
  once := h.once
  deleted := h.deleted
  governed hchanged hruns deadline hphase := by
    have hs := h.scheduled
    rw [Timer.Scheduled, hphase] at hs
    exact hs.2.2 hchanged hruns

theorem createTimer (now queue dueTime period : ℕ) (armed : Bool) :
    (Timer.createTimer now queue dueTime period armed).Inv now := by
  refine ⟨by simp [Timer.createTimer], by simp [Timer.createTimer], by simp [Timer.createTimer],
    le_refl _, by simp [Timer.createTimer], by simp [Timer.createTimer], ?_⟩
  cases armed
  · exact trivial
  · exact ⟨rfl, rfl⟩

theorem tick (h : t.Inv now) (d : ℕ) : t.Inv (now + d) := by
  refine { h with since := h.since.trans (Nat.le_add_right now d), scheduled := ?_ }
  have hs := h.scheduled
  unfold Timer.Scheduled at hs ⊢
  cases hphase : t.phase <;> rw [hphase] at hs
  case ready => exact ⟨hs.1.trans (Nat.le_add_right now d), hs.2⟩
  all_goals exact hs

/-- **A change that agrees with the worker.** -/
theorem changeTimer (h : t.Inv now) (hmapped : t.mapped = true) {dueTime period : ℕ}
    (hagrees : t.Agrees now dueTime period) : (t.changeTimer now dueTime period).Inv now := by
  have hdeleted : t.deleted = false := by
    cases hd : t.deleted with
    | false => rfl
    | true => rw [h.unmapped hd] at hmapped; cases hmapped
  refine ⟨h.early, h.once, h.deleted, le_refl _, h.cancelled, h.unmapped, ?_⟩
  unfold Timer.Agrees at hagrees
  unfold Timer.Scheduled Timer.due
  simp only [Timer.changeTimer, Nat.zero_mul, Nat.add_zero]
  cases hphase : t.phase <;> rw [hphase] at hagrees <;> dsimp only at hagrees ⊢
  case fresh => exact ⟨trivial, by simp⟩
  case waiting deadline => exact ⟨hagrees.ge, .inl trivial, fun _ _ => hagrees⟩
  case ready deadline p =>
    obtain ⟨rfl, hp⟩ := hagrees
    exact ⟨le_refl _, .inl trivial, hdeleted, hp.imp id fun h => ⟨h.1, h.2.ge⟩⟩
  case running deadline p =>
    exact hagrees.imp id fun h => ⟨h.ge, .inl trivial, fun _ _ => h⟩

/-- **A deletion** when the callback is not about to start. -/
theorem delete (h : t.Inv now) (hnot : t.aboutToStart = false) :
    ({ t.cancel with deleted := true } : Timer).Inv now := by
  refine ⟨h.early, h.once, h.deleted, h.since, fun _ => rfl, fun _ => rfl, ?_⟩
  have hs := h.scheduled
  unfold Timer.aboutToStart at hnot
  unfold Timer.Scheduled at hs ⊢
  simp only [Timer.cancel]
  cases hphase : t.phase <;> rw [hphase] at hs hnot
  case ready => cases hnot
  all_goals exact hs

theorem cancel (h : t.Inv now) : t.cancel.Inv now := by
  refine ⟨h.early, h.once, h.deleted, h.since, fun _ => rfl, fun _ => rfl, ?_⟩
  have hs := h.scheduled
  unfold Timer.Scheduled at hs ⊢
  simp only [Timer.cancel]
  cases hphase : t.phase <;> rw [hphase] at hs <;> exact hs

theorem begin (h : t.Inv now) (hn : t.begin now = some t') : t'.Inv now := by
  have hs := h.scheduled
  unfold Timer.begin at hn
  unfold Timer.Scheduled at hs
  cases hphase : t.phase <;> rw [hphase] at hn hs <;> cases hn
  obtain ⟨hruns, hchanged⟩ := hs
  have hdue : t.due ≤ now + t.dueTime := by
    rw [Timer.due, hruns, Nat.zero_mul, Nat.add_zero]
    exact Nat.add_le_add_right h.since _
  refine { h with scheduled := ⟨hdue, .inl hruns, fun hc => ?_⟩ }
  rw [hchanged] at hc
  cases hc

theorem wake (h : t.Inv now) (hn : t.wake now = some t') : t'.Inv now := by
  have hs := h.scheduled
  unfold Timer.wake at hn
  unfold Timer.Scheduled at hs
  cases hphase : t.phase <;> rw [hphase] at hn hs <;> dsimp only at hn
  case waiting deadline =>
    split_ifs at hn with hcancelled hpast
    · cases hn
      exact { h with scheduled := trivial }
    · cases hn
      refine { h with scheduled := ⟨hs.1.trans hpast, hs.2.1, ?_, ?_⟩ }
      · exact Bool.eq_false_iff.2 fun hd => hcancelled (h.cancelled hd)
      · by_cases hp : t.period = 0
        · exact .inl hp
        · exact .inr ⟨hp, Nat.add_le_add_right hs.1 _⟩
  all_goals cases hn

theorem start (h : t.Inv now) (hn : t.start now = some t') : t'.Inv now := by
  have hs := h.scheduled
  unfold Timer.start at hn
  unfold Timer.Scheduled at hs
  cases hphase : t.phase <;> rw [hphase] at hn hs <;> cases hn
  rename_i deadline p
  obtain ⟨hdue, honce, hdeleted, hnext⟩ := hs
  refine ⟨List.forall_mem_cons.2 ⟨hdue, h.early⟩, List.forall_mem_cons.2 ⟨fun hp => ?_, h.once⟩,
    List.forall_mem_cons.2 ⟨hdeleted, h.deleted⟩, h.since, h.cancelled, h.unmapped, ?_⟩
  · exact honce.resolve_right fun h => h hp
  · refine hnext.imp id fun ⟨hp, hle⟩ => ⟨?_, .inr hp, fun _ h => absurd h (Nat.succ_ne_zero _)⟩
    rw [Timer.due, Nat.add_mul, Nat.one_mul, ← Nat.add_assoc]
    exact hle

theorem finish (h : t.Inv now) (hn : t.finish = some t') : t'.Inv now := by
  have hs := h.scheduled
  unfold Timer.finish at hn
  unfold Timer.Scheduled at hs
  cases hphase : t.phase <;> rw [hphase] at hn hs <;> cases hn
  rename_i deadline p
  refine { h with scheduled := ?_ }
  by_cases hend : t.cancelled = true ∨ p = 0
  · simp [Timer.Scheduled, hend]
  · obtain ⟨-, hp⟩ := not_or.1 hend
    simp only [Timer.Scheduled, if_neg hend]
    exact hs.resolve_left hp

end Timer.Inv

/-- Every timer keeps the invariant. -/
def Inv (s : State ι) : Prop := ∀ i, ∀ t ∈ s.timers i, t.Inv s.now

omit [DecidableEq ι] in
theorem inv_init : Inv (init : State ι) := fun _ _ ht => by cases ht

theorem Inv.step {s s' : State ι} {i : ι} {f : Timer → Option Timer} (h : Inv s)
    (hf : ∀ t t', s.timers i = some t → t.Inv s.now → f t = some t' → t'.Inv s.now)
    (hn : s.step i f = some s') : Inv s' := by
  obtain ⟨t', ht', rfl⟩ := Option.map_eq_some_iff.1 hn
  obtain ⟨t, ht, hft⟩ := Option.bind_eq_some_iff.1 ht'
  intro j u hu
  by_cases hj : j = i
  · subst hj
    simp only [Function.update_self, Option.mem_some_iff] at hu
    subst hu
    exact hf t t' ht (h j t ht) hft
  · simp only [Function.update_of_ne hj] at hu
    exact h j u hu

/-- **Every orderly step keeps the invariant.** -/
theorem Inv.next {s s' : State ι} {a : Act ι} (h : Inv s) (hO : Orderly s a)
    (hn : next s a = some s') : Inv s' := by
  cases a with
  | tick d =>
    cases hn
    exact fun i t ht => (h i t ht).tick d
  | createTimer i queue dueTime period armed =>
    obtain ⟨-, hn⟩ := Option.ite_none_right_eq_some.1 hn
    cases hn
    intro j u hu
    by_cases hj : j = i
    · subst hj
      simp only [Function.update_self, Option.mem_some_iff] at hu
      subst hu
      exact .createTimer ..
    · simp only [Function.update_of_ne hj] at hu
      exact h j u hu
  | changeTimer i dueTime period =>
    refine h.step (fun t t' ht hI hf => ?_) hn
    split_ifs at hf with hmapped
    cases hf
    exact hI.changeTimer hmapped (hO t ht hmapped)
  | deleteTimer i =>
    refine h.step (fun t t' ht hI hf => ?_) hn
    split_ifs at hf with hmapped
    cases hf
    exact hI.delete (hO t ht hmapped)
  | deleteQueue queue =>
    cases hn
    intro j u hu
    obtain ⟨t, ht, rfl⟩ := Option.map_eq_some_iff.1 hu
    split_ifs
    · exact (h j t ht).cancel
    · exact h j t ht
  | begin i => exact h.step (fun _ _ _ hI hf => hI.begin hf) hn
  | wake i => exact h.step (fun _ _ _ hI hf => hI.wake hf) hn
  | start i => exact h.step (fun _ _ _ hI hf => hI.start hf) hn
  | finish i => exact h.step (fun _ _ _ hI hf => hI.finish hf) hn

/-- **Timers keep to their settings** in every run in which a change agrees with the schedule of the
worker and a deletion does not meet a callback that is about to start. -/
theorem timers_of_orderly {acts : List (Act ι)} (h : lts.AllSteps Orderly init acts) :
    lts.AllStates Sound init acts :=
  LTS.allStates_of_allSteps (I := Inv) (fun _ hI i t ht => (hI i t ht).sound)
    (fun _ _ _ hI hO hn => hI.next hO hn) inv_init h

section Sample

instance decidableAgrees (t : Timer) (now dueTime period : ℕ) :
    Decidable (t.Agrees now dueTime period) := by
  unfold Timer.Agrees
  split <;> infer_instance

instance decidableOrderly (s : State ι) : ∀ a, Decidable (Orderly s a)
  | .changeTimer i dueTime period =>
    match h : s.timers i with
    | none => .isTrue (by simp [Orderly, h])
    | some t => decidable_of_iff (t.mapped = true → t.Agrees s.now dueTime period)
      (by simp [Orderly, h])
  | .deleteTimer i =>
    match h : s.timers i with
    | none => .isTrue (by simp [Orderly, h])
    | some t => decidable_of_iff (t.mapped = true → t.aboutToStart = false) (by simp [Orderly, h])
  | .tick _ => .isTrue trivial
  | .createTimer .. => .isTrue trivial
  | .deleteQueue _ => .isTrue trivial
  | .begin _ => .isTrue trivial
  | .wake _ => .isTrue trivial
  | .start _ => .isTrue trivial
  | .finish _ => .isTrue trivial

/-- Two runs of a periodic timer, a change while it waits, and its deletion. -/
def sampleActs (i : ι) : List (Act ι) :=
  [.createTimer i 2 10 5 true, .begin i, .tick 10, .wake i, .start i, .finish i, .tick 2,
    .changeTimer i 3 0, .tick 3, .wake i, .start i, .deleteTimer i, .finish i]

theorem timers_sample : lts.AllStates Sound init (sampleActs ()) :=
  timers_of_orderly (by decide +kernel)

/-- **A timer that is put off runs at its old time.** -/
theorem early_after_change : ∃ s, lts.run init
    [.createTimer () 2 10 0 true, .begin (), .changeTimer () 1000 0, .tick 10, .wake (),
      .start ()] = some s ∧ ¬ Sound s := by
  refine ⟨_, rfl, fun h => ?_⟩
  have hearly := (h () _ rfl).early ⟨10, 1000, 0, 0, false⟩ List.mem_cons_self
  exact absurd hearly (by decide)

end Sample

end TimerQueue

end Swinx
