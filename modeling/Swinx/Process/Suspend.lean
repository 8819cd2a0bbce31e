import Mathlib.Logic.Function.Basic
import Mathlib.Data.Fintype.Basic
import Swinx.LTS.Basic

/-!
# Suspended threads

`SuspendThread` counts and, if the thread was not suspended, sends it `SIGPARK`, whose handler
sleeps in `sigsuspend` as long as the count is positive.  `ResumeThread` counts down and, if that
was the last, sends `SIGWAKE`, whose handler does nothing: it makes `sigsuspend` return.

Both signals are queued.  `SIGPARK` is blocked in its handler, but not in `sigsuspend`, so that the
handlers nest; `SIGWAKE` is never blocked, and outside of `sigsuspend` it is lost in its handler.
`pthread_kill` does not fail.

* `sound_of_noneLost` — a run of orderly steps is sound in all its states.
-/

namespace Swinx

namespace Suspend

/-- Where a handler of `SIGPARK` is. -/
inductive Frame
  /-- Before it saves the context. -/
  | entered
  /-- Before it loads the count. -/
  | test
  /-- It has loaded a positive count. -/
  | decided
  /-- In `sigsuspend`. -/
  | asleep
  deriving DecidableEq, Repr

/-- Where `Swinx_ThreadProc` is. -/
inductive Own
  /-- It waits for `hEventResume`. -/
  | waiting
  | running
  /-- After `bExited.store(true)`. -/
  | exited
  /-- After `tls_parkObj = nullptr`. -/
  | leaving
  | gone
  deriving DecidableEq, Repr

/-- Where a caller of `SuspendThread` or `ResumeThread` is. -/
inductive Caller
  | idle
  /-- In `SuspendThread`, before it loads `bExited`. -/
  | testExited
  /-- Before `pthread_kill` with `SIGPARK`. -/
  | killPark
  /-- In `ResumeThread`, before it writes `bCreateSuspended`. -/
  | bootstrap
  /-- Before `nSuspend.load()`. -/
  | load
  /-- Before the test of the loop. -/
  | cas (prev : ℕ)
  /-- Before `pthread_kill` with `SIGWAKE`. -/
  | killWake
  deriving DecidableEq, Repr

/-- The caller will send a signal. -/
def Caller.sends : Caller → Bool
  | .killPark | .killWake => true
  | _ => false

/-- The thread and its callers. -/
structure State (κ : Type*) where
  nSuspend : ℕ
  /-- The calls that have counted up. -/
  suspends : ℕ
  /-- The calls that have counted down. -/
  resumes : ℕ
  bCreateSuspended : Bool
  hEventResume : Bool
  bExited : Bool
  hasParkContext : Bool
  own : Own
  /-- The handlers of the thread, the last one first. -/
  frames : List Frame
  /-- The queued `SIGPARK`. -/
  park : ℕ
  /-- The queued `SIGWAKE`. -/
  wake : ℕ
  caller : κ → Caller
  /-- A handler was entered with a positive count, which was not 0 since then. -/
  held : Bool

/-- The steps. -/
inductive Act (κ : Type*)
  | suspend (k : κ)
  | resume (k : κ)
  /-- The next step of a call; a weak exchange may fail for no reason. -/
  | goOn (k : κ) (spurious : Bool)
  | deliverPark
  | deliverWake
  /-- The next step of the last handler. -/
  | handler
  /-- The next step of the thread itself. -/
  | own
  deriving DecidableEq, Repr

variable {κ : Type*}

/-- A thread that `CreateThread` has just returned. -/
def init (suspended : Bool) : State κ where
  nSuspend := 0
  suspends := 0
  resumes := 0
  bCreateSuspended := suspended
  hEventResume := false
  bExited := false
  hasParkContext := false
  own := if suspended then .waiting else .running
  frames := []
  park := 0
  wake := 0
  caller _ := .idle
  held := false

/-- A signal has interrupted `sigsuspend`. -/
def interrupt : List Frame → List Frame
  | .asleep :: fs => .test :: fs
  | fs => fs

/-- `tls_parkObj` is `nullptr`. -/
def State.noPark (s : State κ) : Prop := s.own = .leaving ∨ s.own = .gone

instance decidableNoPark (s : State κ) : Decidable s.noPark :=
  inferInstanceAs (Decidable (_ ∨ _))

/-- The next step of the last handler. -/
def handler (s : State κ) : Option (State κ) :=
  match s.frames with
  | .entered :: fs => some { s with hasParkContext := true, frames := .test :: fs }
  | .test :: fs =>
    if 0 < s.nSuspend then some { s with frames := .decided :: fs }
    else some { s with frames := interrupt fs }
  | .decided :: fs => some { s with frames := .asleep :: fs }
  | _ => none

/-- The next step of the thread itself. -/
def ownStep (s : State κ) : Option (State κ) :=
  match s.own with
  | .waiting => if s.hEventResume then some { s with own := .running } else none
  | .running => some { s with own := .exited, bExited := true }
  | .exited => some { s with own := .leaving }
  | .leaving => some { s with own := .gone }
  | .gone => none

variable [DecidableEq κ]

/-- The caller `k` is now at `c`. -/
def State.at (s : State κ) (k : κ) (c : Caller) : State κ :=
  { s with caller := Function.update s.caller k c }

/-- The next step of a call. -/
def goOn (s : State κ) (k : κ) (spurious : Bool) : Option (State κ) :=
  match s.caller k with
  | .idle => none
  | .testExited => some (s.at k (if s.bExited then .idle else .killPark))
  | .killPark => some ({ s with park := s.park + 1 }.at k .idle)
  | .bootstrap => some ({ s with bCreateSuspended := false, hEventResume := true }.at k .idle)
  | .load => some (s.at k (.cas s.nSuspend))
  | .cas prev =>
    if prev = 0 then some (s.at k .idle)
    else if s.nSuspend = prev ∧ spurious = false then
      some ({ s with
        nSuspend := prev - 1
        resumes := s.resumes + 1
        held := s.held && decide (prev ≠ 1) }.at k (if prev = 1 then .killWake else .idle))
    else some (s.at k (.cas s.nSuspend))
  | .killWake => some ({ s with wake := s.wake + 1 }.at k .idle)

/-- One step. -/
def next (s : State κ) : Act κ → Option (State κ)
  | .suspend k =>
    if s.caller k = .idle then
      some ({ s with
        -- a `DWORD`
        nSuspend := (s.nSuspend + 1) % 4294967296
        suspends := s.suspends + 1 }.at k (if s.nSuspend = 0 then .testExited else .idle))
    else none
  | .resume k =>
    if s.caller k = .idle then
      some (s.at k (if s.bCreateSuspended then .bootstrap else .load))
    else none
  | .goOn k spurious => goOn s k spurious
  | .deliverPark =>
    if 0 < s.park ∧ s.own ≠ .gone ∧ (s.frames = [] ∨ s.frames.head? = some .asleep) then
      if s.noPark then
        -- The handler returns, and so does `sigsuspend`.
        some { s with
          park := s.park - 1
          frames := interrupt s.frames
          held := s.held || decide (0 < s.nSuspend) }
      else
        some { s with
          park := s.park - 1
          frames := .entered :: s.frames
          held := s.held || decide (0 < s.nSuspend) }
    else none
  | .deliverWake =>
    if 0 < s.wake ∧ s.own ≠ .gone then
      some { s with wake := s.wake - 1, frames := interrupt s.frames }
    else none
  | .handler => handler s
  | .own => if s.frames = [] then ownStep s else none

/-- The thread and its callers as a transition system. -/
def lts : LTS (State κ) (Act κ) := ⟨next⟩

/-- **Suspending is sound.** -/
structure Sound (s : State κ) : Prop where
  /-- The count is the number of suspends less that of resumes. -/
  counted : s.nSuspend + s.resumes = s.suspends
  /-- A thread that was parked with a positive count is in a handler until the count is 0. -/
  kept : s.held = true → s.frames ≠ []
  /-- A thread does not sleep when nothing will wake it. -/
  awake : s.nSuspend = 0 → (∀ k, s.caller k = .idle) → s.park = 0 → s.wake = 0 →
    s.frames.head? ≠ some .asleep

/-- **The good steps.** -/
def Orderly (s : State κ) : Act κ → Prop
  /- The count does not overflow. -/
  | .suspend _ => s.nSuspend + 1 < 4294967296
  /- The thread does not leave with a positive count. -/
  | .deliverPark => s.noPark → s.nSuspend = 0
  /- The signal does not come between the test of the count and `sigsuspend`, unless the thread is
  suspended again, or another signal is on its way. -/
  | .deliverWake => s.frames.head? = some .decided →
    0 < s.nSuspend ∨ 0 < s.park ∨ 1 < s.wake ∨ ∃ k, (s.caller k).sends = true
  | _ => True

instance decidableOrderly [Fintype κ] (s : State κ) (act : Act κ) : Decidable (Orderly s act) := by
  cases act <;> unfold Orderly <;> infer_instance

/-- The last handler sleeps, or is about to. -/
def Frame.sleeps : Frame → Bool
  | .decided | .asleep => true
  | _ => false

/-- What is known in an orderly run. -/
structure Inv (s : State κ) : Prop where
  counted : s.nSuspend + s.resumes = s.suspends
  held : s.held = true → 0 < s.nSuspend ∧ s.frames ≠ []
  /-- All handlers but the last one sleep. -/
  nested : ∀ f ∈ s.frames.tail, f = .asleep
  /-- If the thread will sleep with the count 0, a signal is on its way. -/
  signal : (∃ f, s.frames.head? = some f ∧ f.sleeps = true) → s.nSuspend = 0 →
    0 < s.park ∨ 0 < s.wake ∨ ∃ k, (s.caller k).sends = true

omit [DecidableEq κ] in
theorem inv_init (suspended : Bool) : Inv (init suspended : State κ) := by
  constructor <;> simp [init]

/-! ### The handlers -/

@[simp] theorem tail_interrupt (fs : List Frame) : (interrupt fs).tail = fs.tail := by
  cases fs with
  | nil => rfl
  | cons f fs => cases f <;> rfl

@[simp] theorem interrupt_eq_nil {fs : List Frame} : interrupt fs = [] ↔ fs = [] := by
  cases fs with
  | nil => exact Iff.rfl
  | cons f fs => cases f <;> simp [interrupt]

/-- After an interruption the last handler sleeps only if it was before `sigsuspend`. -/
theorem head?_interrupt {fs : List Frame} {f : Frame} (h : (interrupt fs).head? = some f)
    (hf : f.sleeps = true) : fs.head? = some .decided := by
  cases fs with
  | nil => cases h
  | cons g fs =>
    cases g with
    | decided => rfl
    | asleep =>
      obtain rfl := Option.some.inj h
      cases hf
    | _ =>
      obtain rfl := Option.some.inj h
      cases hf

namespace Inv

variable {s s' : State κ}

omit [DecidableEq κ] in
theorem sound (hI : Inv s) : Sound s := by
  refine ⟨hI.counted, fun h => (hI.held h).2, fun hzero hidle hpark hwake hhead => ?_⟩
  rcases hI.signal ⟨_, hhead, rfl⟩ hzero with h | h | ⟨k, hk⟩
  · omega
  · omega
  · rw [hidle k] at hk
    cases hk

omit [DecidableEq κ] in
theorem of_pos (hpos : 0 < s'.nSuspend) (hcount : s'.nSuspend + s'.resumes = s'.suspends)
    (hheld : s'.held = true → s'.frames ≠ []) (hnested : ∀ f ∈ s'.frames.tail, f = .asleep) :
    Inv s' :=
  ⟨hcount, fun h => ⟨hpos, hheld h⟩, hnested, fun _ h => absurd h hpos.ne'⟩

theorem at_caller (hI : Inv s) {k : κ} {c : Caller} (hk : (s.caller k).sends = false) :
    Inv (s.at k c) := by
  refine ⟨hI.counted, hI.held, hI.nested, fun hf hz => ?_⟩
  refine (hI.signal hf hz).imp_right fun h => h.imp_right fun ⟨k', hk'⟩ => ⟨k', ?_⟩
  have hne : k' ≠ k := by
    rintro rfl
    rw [hk] at hk'
    cases hk'
  simpa [State.at, hne] using hk'

theorem goOn (hI : Inv s) {k : κ} {spurious : Bool}
    (hn : Suspend.goOn s k spurious = some s') : Inv s' := by
  unfold Suspend.goOn at hn
  cases hk : s.caller k with
  | idle => simp [hk] at hn
  | testExited =>
    simp only [hk, Option.some.injEq] at hn
    subst hn
    exact hI.at_caller (by rw [hk]; rfl)
  | killPark =>
    simp only [hk, Option.some.injEq] at hn
    subst hn
    exact ⟨hI.counted, hI.held, hI.nested, fun _ _ => Or.inl (Nat.succ_pos _)⟩
  | bootstrap =>
    simp only [hk, Option.some.injEq] at hn
    subst hn
    have := hI.at_caller (c := .idle) (by rw [hk]; rfl : (s.caller k).sends = false)
    exact ⟨this.counted, this.held, this.nested, this.signal⟩
  | load =>
    simp only [hk, Option.some.injEq] at hn
    subst hn
    exact hI.at_caller (by rw [hk]; rfl)
  | cas prev =>
    have hquiet : (s.caller k).sends = false := by rw [hk]; rfl
    simp only [hk] at hn
    by_cases hprev : prev = 0
    · rw [if_pos hprev] at hn
      exact Option.some.inj hn ▸ hI.at_caller hquiet
    rw [if_neg hprev] at hn
    by_cases hcas : s.nSuspend = prev ∧ spurious = false
    · rw [if_pos hcas] at hn
      obtain rfl := Option.some.inj hn
      obtain ⟨hcount, -⟩ := hcas
      have hcounted := hI.counted
      have hheld : (s.held && decide (prev ≠ 1)) = true → 0 < prev - 1 ∧ s.frames ≠ [] := by
        intro h
        simp only [Bool.and_eq_true, decide_eq_true_eq] at h
        exact ⟨by omega, (hI.held h.1).2⟩
      refine ⟨?_, hheld, hI.nested, fun _ hz => Or.inr (Or.inr ⟨k, ?_⟩)⟩
      · show prev - 1 + (s.resumes + 1) = s.suspends
        omega
      · -- the count is 0 now, so this call sends the signal
        have hone : prev = 1 := by
          have : prev - 1 = 0 := hz
          omega
        simp [State.at, hone, Caller.sends]
    · rw [if_neg hcas] at hn
      exact Option.some.inj hn ▸ hI.at_caller hquiet
  | killWake =>
    simp only [hk, Option.some.injEq] at hn
    subst hn
    exact ⟨hI.counted, hI.held, hI.nested, fun _ _ => Or.inr (Or.inl (Nat.succ_pos _))⟩

omit [DecidableEq κ] in
theorem handler (hI : Inv s) (hn : Suspend.handler s = some s') : Inv s' := by
  unfold Suspend.handler at hn
  split at hn
  · next fs hfs =>
    obtain rfl := Option.some.inj hn
    have hnested := hI.nested
    rw [hfs] at hnested
    refine ⟨hI.counted, fun h => ⟨(hI.held h).1, by simp⟩, hnested, ?_⟩
    rintro ⟨f, hf, hsleeps⟩
    obtain rfl := Option.some.inj hf
    cases hsleeps
  · next fs hfs =>
    have hnested := hI.nested
    rw [hfs] at hnested
    split_ifs at hn with hpos
    · obtain rfl := Option.some.inj hn
      exact of_pos hpos hI.counted (by simp) hnested
    · obtain rfl := Option.some.inj hn
      refine ⟨hI.counted, fun h => absurd (hI.held h).1 hpos, ?_, ?_⟩
      · simp only [tail_interrupt]
        exact fun f hf => hnested f (List.mem_of_mem_tail hf)
      · rintro ⟨f, hf, hsleeps⟩
        -- the handlers below sleep, and the last of them is interrupted
        have hdec := head?_interrupt hf hsleeps
        exact absurd (hnested _ (List.mem_of_mem_head? hdec)) (by simp)
  · next fs hfs =>
    obtain rfl := Option.some.inj hn
    have hnested := hI.nested
    rw [hfs] at hnested
    exact ⟨hI.counted, fun h => ⟨(hI.held h).1, by simp⟩, hnested, fun _ hz =>
      hI.signal ⟨.decided, by rw [hfs]; rfl, rfl⟩ hz⟩
  · cases hn

omit [DecidableEq κ] in
theorem ownStep (hI : Inv s) (hn : Suspend.ownStep s = some s') : Inv s' := by
  unfold Suspend.ownStep at hn
  split at hn
  · split_ifs at hn
    obtain rfl := Option.some.inj hn
    exact ⟨hI.counted, hI.held, hI.nested, hI.signal⟩
  · obtain rfl := Option.some.inj hn
    exact ⟨hI.counted, hI.held, hI.nested, hI.signal⟩
  · obtain rfl := Option.some.inj hn
    exact ⟨hI.counted, hI.held, hI.nested, hI.signal⟩
  · obtain rfl := Option.some.inj hn
    exact ⟨hI.counted, hI.held, hI.nested, hI.signal⟩
  · cases hn

theorem deliverPark (hI : Inv s) (hgood : s.noPark → s.nSuspend = 0)
    (hn : Suspend.next s .deliverPark = some s') : Inv s' := by
  simp only [Suspend.next] at hn
  split_ifs at hn with hcond hno
  · obtain rfl := Option.some.inj hn
    obtain ⟨-, -, hfs⟩ := hcond
    have hzero := hgood hno
    refine ⟨hI.counted, fun h => ?_, ?_, ?_⟩
    · simp only [hzero, lt_irrefl, decide_false, Bool.or_false] at h
      exact absurd (hI.held h).1 (by omega)
    · simpa using hI.nested
    · rintro ⟨f, hf, hsleeps⟩
      have hdec := head?_interrupt hf hsleeps
      rcases hfs with h | h
      · simp [h] at hdec
      · rw [h] at hdec
        cases hdec
  · obtain rfl := Option.some.inj hn
    obtain ⟨-, -, hfs⟩ := hcond
    refine ⟨hI.counted, fun h => ⟨?_, by simp⟩, fun f hf => ?_, ?_⟩
    · simp only [Bool.or_eq_true, decide_eq_true_eq] at h
      exact h.elim (fun h => (hI.held h).1) id
    · rcases hfs with h | h
      · simp [h] at hf
      · obtain ⟨fs, hcons⟩ := List.head?_eq_some_iff.1 h
        have hnested := hI.nested
        rw [hcons] at hnested
        simp only [List.tail_cons, hcons] at hf
        exact (List.mem_cons.1 hf).elim id (hnested f)
    · rintro ⟨f, hf, hsleeps⟩
      obtain rfl := Option.some.inj hf
      cases hsleeps

theorem next (hI : Inv s) {act : Act κ} (hgood : Orderly s act)
    (hn : Suspend.next s act = some s') : Inv s' := by
  cases act with
  | suspend k =>
    simp only [Suspend.next, Option.ite_none_right_eq_some, Option.some.injEq] at hn
    obtain ⟨-, rfl⟩ := hn
    have hcount : (s.nSuspend + 1) % 4294967296 = s.nSuspend + 1 := Nat.mod_eq_of_lt hgood
    have hcounted := hI.counted
    refine of_pos ?_ ?_ (fun h => (hI.held h).2) hI.nested
    · show 0 < (s.nSuspend + 1) % 4294967296
      omega
    · show (s.nSuspend + 1) % 4294967296 + s.resumes = s.suspends + 1
      omega
  | resume k =>
    simp only [Suspend.next, Option.ite_none_right_eq_some, Option.some.injEq] at hn
    obtain ⟨hidle, rfl⟩ := hn
    exact hI.at_caller (by rw [hidle]; rfl)
  | goOn k spurious => exact hI.goOn hn
  | deliverPark => exact hI.deliverPark hgood hn
  | deliverWake =>
    simp only [Suspend.next, Option.ite_none_right_eq_some, Option.some.injEq] at hn
    obtain ⟨-, rfl⟩ := hn
    refine ⟨hI.counted, fun h => ⟨(hI.held h).1, by simpa using (hI.held h).2⟩,
      by simpa using hI.nested, ?_⟩
    rintro ⟨f, hf, hsleeps⟩ hz
    rcases hgood (head?_interrupt hf hsleeps) with h | h | h | h
    · exact absurd hz h.ne'
    · exact Or.inl h
    · exact Or.inr (Or.inl (Nat.sub_pos_of_lt h))
    · exact Or.inr (Or.inr h)
  | handler => exact hI.handler hn
  | own =>
    simp only [Suspend.next, Option.ite_none_right_eq_some] at hn
    exact hI.ownStep hn.2

end Inv

/-- **A run of orderly steps is sound in all its states**: the count never overflows, the thread
does not leave while it is suspended, and `SIGWAKE` is never lost between the test of the count
and `sigsuspend`. -/
theorem sound_of_noneLost {suspended : Bool} {acts : List (Act κ)}
    (h : lts.AllSteps Orderly (init suspended) acts) :
    lts.AllStates Sound (init suspended) acts :=
  LTS.allStates_of_allSteps (fun _ hI => hI.sound) (fun _ _ _ hI hG hn => hI.next hG hn)
    (inv_init suspended) h

/-- The thread is suspended, sleeps, and is resumed. -/
def suspendResume : List (Act Unit) :=
  [.suspend (), .goOn () false, .goOn () false, .deliverPark, .handler, .handler, .handler,
    .resume (), .goOn () false, .goOn () false, .goOn () false, .deliverWake, .handler]

/-- A thread that is woken in `sigsuspend`. -/
theorem suspendResume_sound : lts.AllStates Sound (init false) suspendResume :=
  sound_of_noneLost (by decide)

/-- The thread is resumed when it has found the count positive, and goes to sleep after that. -/
def wokenTooEarly : List (Act Unit) :=
  [.suspend (), .goOn () false, .goOn () false, .deliverPark, .handler, .handler,
    .resume (), .goOn () false, .goOn () false, .goOn () false, .deliverWake, .handler]

/-- The thread sleeps with the count 0, and nothing will wake it. -/
theorem asleep_for_ever : ∃ s, lts.run (init false) wokenTooEarly = some s ∧ s.nSuspend = 0 ∧
    s.frames = [.asleep] ∧ s.park = 0 ∧ s.wake = 0 ∧ ¬ Sound s :=
  ⟨_, rfl, rfl, rfl, rfl, rfl, fun h => h.awake rfl (fun _ => rfl) rfl rfl rfl⟩

end Suspend

end Swinx
