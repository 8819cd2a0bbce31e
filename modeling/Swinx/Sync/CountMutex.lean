import Swinx.LTS.Basic
import Swinx.LTS.Sum
import Swinx.Posix.RecursiveMutex

/-!
# `CountMutex`

A recursive mutex that counts its locks in the member `cLock`.  `FreeLock` unlocks until the count
is 0 and returns what it was; `RestoreLock` locks until the count is back.  Both read the count
while the thread may not own the mutex, so that what they read may be the count of another thread.

The steps are those of the two loops and of `lock` and `unlock`, each access to the mutex and to
the count by itself.  A thread wraps a handler in `FreeLock` and `RestoreLock` while it has locked
the mutex, as `CallWindowObjProc` and `peekMsg` do; the handler locks and unlocks in pairs, and may
call handlers itself.

* `Inv.counted` — the count is off by the threads that are between two halves of a step.
* `sound_iff_orderly` — a run is sound in all its states exactly if its steps are orderly.
-/

namespace Swinx

namespace CountMutex

/-- Where a thread is. -/
inductive Pc
  /-- In its own code. -/
  | idle
  /-- In `lock`, before `cLock++`. -/
  | locked
  /-- In `unlock`, after `cLock--`. -/
  | unlocking
  /-- In `FreeLock`, which will return `ret`, before the test of the loop. -/
  | freeTest (ret : ℤ)
  /-- In `FreeLock`, before `unlock`. -/
  | freeUnlock (ret : ℤ)
  /-- In `FreeLock`, before `cLock--`. -/
  | freeCount (ret : ℤ)
  /-- In `RestoreLock(n)`, before the test of the loop. -/
  | restoreTest (n : ℤ)
  /-- In `RestoreLock(n)`, before `lock`. -/
  | restoreLock (n : ℤ)
  /-- In `RestoreLock(n)`, before `cLock++`. -/
  | restoreCount (n : ℤ)
  /-- `RestoreLock(n)` returns. -/
  | restored (n : ℤ)
  deriving DecidableEq, Repr

/-- The thread is between the two halves of a step; `cLock` is off by so much. -/
def Pc.off : Pc → ℤ
  | .locked | .unlocking | .restoreCount _ => -1
  | .freeCount _ => 1
  | _ => 0

/-- The next step of the thread unlocks the mutex. -/
def Pc.unlocks : Pc → Bool
  | .unlocking | .freeUnlock _ => true
  | _ => false

/-- A thread. -/
structure Thread where
  pc : Pc
  /-- The locks that it still has to unlock, since the last `FreeLock` that is not restored. -/
  locks : ℕ
  /-- What the calls of `FreeLock` have returned, and the locks at that time. -/
  saved : List (ℤ × ℕ)
  deriving DecidableEq, Repr

/-- The mutex and the threads. -/
structure State (τ : Type*) where
  mutex : RecursiveMutex τ
  cLock : ℤ
  thr : τ → Thread

/-- What a thread does: it calls a function, or goes on in the one that it has called. -/
inductive Op
  | lock
  | unlock
  | freeLock
  | restoreLock
  | goOn
  deriving DecidableEq, Repr

variable {τ : Type*} [DecidableEq τ]

/-- No thread has begun. -/
def init : State τ := ⟨.free, 0, fun _ => ⟨.idle, 0, []⟩⟩

/-- The thread `t` is now `th`. -/
def State.set (s : State τ) (t : τ) (th : Thread) : State τ :=
  { s with thr := Function.update s.thr t th }

/-- The next step in the function that the thread `t` has called. -/
def goOn (s : State τ) (t : τ) : Option (State τ) :=
  let th := s.thr t
  match th.pc with
  | .idle => none
  | .locked =>
    some ({ s with cLock := s.cLock + 1 }.set t { th with pc := .idle, locks := th.locks + 1 })
  | .unlocking =>
    (s.mutex.unlock t).map fun m =>
      { s with mutex := m }.set t { th with pc := .idle, locks := th.locks - 1 }
  | .freeTest ret =>
    if 0 < s.cLock then some (s.set t { th with pc := .freeUnlock ret })
    else some (s.set t ⟨.idle, 0, (ret, th.locks) :: th.saved⟩)
  | .freeUnlock ret =>
    (s.mutex.unlock t).map fun m => { s with mutex := m }.set t { th with pc := .freeCount ret }
  | .freeCount ret =>
    some ({ s with cLock := s.cLock - 1 }.set t { th with pc := .freeTest ret })
  | .restoreTest n =>
    some (s.set t { th with pc := if s.cLock < n then .restoreLock n else .restored n })
  | .restoreLock n =>
    (s.mutex.lock t).map fun m => { s with mutex := m }.set t { th with pc := .restoreCount n }
  | .restoreCount n =>
    some ({ s with cLock := s.cLock + 1 }.set t { th with pc := .restoreTest n })
  | .restored _ =>
    match th.saved with
    | (_, locks) :: saved => some (s.set t ⟨.idle, locks, saved⟩)
    | [] => none

/-- One step of the thread `t`. -/
def next (s : State τ) (act : τ × Op) : Option (State τ) :=
  let t := act.1
  let th := s.thr t
  match act.2 with
  | .lock =>
    if th.pc = .idle then
      (s.mutex.lock t).map fun m => { s with mutex := m }.set t { th with pc := .locked }
    else none
  | .unlock =>
    if th.pc = .idle ∧ 0 < th.locks then
      some ({ s with cLock := s.cLock - 1 }.set t { th with pc := .unlocking })
    else none
  | .freeLock =>
    if th.pc = .idle ∧ 0 < th.locks then some (s.set t { th with pc := .freeTest s.cLock })
    else none
  | .restoreLock =>
    match th.saved with
    | (n, _) :: _ =>
      if th.pc = .idle ∧ th.locks = 0 then some (s.set t { th with pc := .restoreTest n }) else none
    | [] => none
  | .goOn => goOn s t

/-- The threads as a transition system. -/
def lts : LTS (State τ) (τ × Op) := ⟨next⟩

/-- **The mutex is sound.** -/
structure Sound (s : State τ) : Prop where
  /-- A thread that is at `unlock` of the mutex owns it. -/
  owned : ∀ t, (s.thr t).pc.unlocks = true → s.mutex.owner = some t
  /-- If no thread is between the two halves of a step, the count is the depth. -/
  counted : (∀ t, (s.thr t).pc.off = 0) → s.cLock = s.mutex.depth
  /-- After `RestoreLock(n)` the thread owns the mutex with depth `n`. -/
  restored : ∀ t n, (s.thr t).pc = .restored n → s.mutex.owner = some t ∧ s.mutex.depth = n

/-- **The good steps**: the tests of the two loops read the count of the thread itself, or one that
makes no difference. -/
def Orderly (s : State τ) (act : τ × Op) : Prop :=
  act.2 = .goOn →
    match (s.thr act.1).pc with
    | .freeTest _ => 0 < s.cLock → s.mutex.owner = some act.1
    | .restoreTest n => n ≤ s.cLock → s.mutex.own act.1 = n
    | _ => True

/-- What is known of a thread that has locked the mutex `own` times. -/
def Thread.Ok (th : Thread) (own : ℕ) : Prop :=
  (∀ p ∈ th.saved, 0 < p.1 ∧ (p.2 : ℤ) ≤ p.1) ∧
    match th.pc with
    | .idle => th.locks ≤ own
    | .locked => th.locks < own
    | .unlocking => 0 < th.locks ∧ th.locks ≤ own
    | .freeTest ret | .freeCount ret => 0 < ret ∧ (th.locks : ℤ) ≤ ret
    | .freeUnlock ret => (0 < ret ∧ (th.locks : ℤ) ≤ ret) ∧ 0 < own
    | .restoreTest n | .restoreLock n => (th.saved.head?.map Prod.fst = some n)
    | .restoreCount n => (th.saved.head?.map Prod.fst = some n) ∧ 0 < own
    | .restored n => (th.saved.head?.map Prod.fst = some n) ∧ (own : ℤ) = n

variable [Fintype τ]

/-- What is known in an orderly run. -/
structure Inv (s : State τ) : Prop where
  counted : s.cLock = s.mutex.depth + ∑ t, (s.thr t).pc.off
  ok : ∀ t, (s.thr t).Ok (s.mutex.own t)

theorem inv_init : Inv (init : State τ) :=
  ⟨by simp [init, Pc.off, RecursiveMutex.free], fun t => ⟨by simp [init], Nat.zero_le _⟩⟩

namespace Inv

variable {s s' : State τ}

theorem sound (hI : Inv s) : Sound s := by
  refine ⟨fun t ht => ?_, fun hoff => ?_, fun t n ht => ?_⟩
  · have hok := (hI.ok t).2
    cases hpc : (s.thr t).pc with
    | unlocking =>
      rw [hpc] at hok
      exact RecursiveMutex.own_pos_iff.1 (lt_of_lt_of_le hok.1 hok.2)
    | freeUnlock ret =>
      rw [hpc] at hok
      exact RecursiveMutex.own_pos_iff.1 hok.2
    | _ =>
      rw [hpc] at ht
      cases ht
  · rw [hI.counted, Finset.sum_eq_zero fun t _ => hoff t, add_zero]
  · obtain ⟨hsaved, hok⟩ := hI.ok t
    rw [ht] at hok
    obtain ⟨hhead, hown⟩ := hok
    obtain ⟨p, hp, rfl⟩ := Option.map_eq_some_iff.1 hhead
    have hpos : 0 < s.mutex.own t := by
      have := (hsaved p (List.mem_of_mem_head? hp)).1
      omega
    have howner := RecursiveMutex.own_pos_iff.1 hpos
    exact ⟨howner, by rw [← hown, RecursiveMutex.own_of_owner howner]⟩

theorem set (hI : Inv s) {t : τ} {m : RecursiveMutex τ} {c : ℤ} {th : Thread}
    (hcount : c - s.cLock = (m.depth : ℤ) - s.mutex.depth + (th.pc.off - (s.thr t).pc.off))
    (hother : ∀ u, u ≠ t → m.own u = s.mutex.own u) (hok : th.Ok (m.own t)) :
    Inv ({ s with mutex := m, cLock := c }.set t th) := by
  refine ⟨?_, fun u => ?_⟩
  · have hsum := sum_update (fun _ th => Pc.off (Thread.pc th)) s.thr (Finset.mem_univ t) th
    simp only [State.set]
    rw [hsum]
    have := hI.counted
    omega
  · rcases eq_or_ne u t with rfl | hne
    · simpa [State.set] using hok
    · simpa [State.set, hne, hother u hne] using hI.ok u

/-- The owner of the mutex reads a count that is at least its own. -/
theorem own_le_cLock (hI : Inv s) {t : τ} (hidle : (s.thr t).pc = .idle)
    (hown : 0 < s.mutex.own t) : (s.mutex.own t : ℤ) ≤ s.cLock := by
  have howner := RecursiveMutex.own_pos_iff.1 hown
  have hoff : 0 ≤ ∑ u, (s.thr u).pc.off := by
    refine Finset.sum_nonneg fun u _ => ?_
    rcases eq_or_ne u t with rfl | hne
    · rw [hidle]
      exact le_rfl
    · -- only the owner is in a step that has made the count too small
      have hzero : s.mutex.own u = 0 := RecursiveMutex.own_of_ne fun h => by
        rw [howner] at h
        exact hne (Option.some.inj h).symm
      have hok := (hI.ok u).2
      rw [hzero] at hok
      cases hpc : (s.thr u).pc with
      | locked => rw [hpc] at hok; exact absurd hok (Nat.not_lt_zero _)
      | unlocking => rw [hpc] at hok; exact absurd (lt_of_lt_of_le hok.1 hok.2) (lt_irrefl 0)
      | restoreCount n => rw [hpc] at hok; exact absurd hok.2 (lt_irrefl 0)
      | freeCount ret => exact zero_le_one
      | _ => exact le_rfl
  rw [hI.counted, RecursiveMutex.own_of_owner howner]
  omega

theorem move (hI : Inv s) {t : τ} {th : Thread} (hoff : th.pc.off = (s.thr t).pc.off)
    (hok : th.Ok (s.mutex.own t)) : Inv (s.set t th) :=
  hI.set (m := s.mutex) (c := s.cLock) (by omega) (fun _ _ => rfl) hok

theorem goOn (hI : Inv s) {t : τ} (hgood : Orderly s (t, .goOn))
    (hn : CountMutex.goOn s t = some s') : Inv s' := by
  have hgood := hgood rfl
  obtain ⟨hsaved, hok⟩ := hI.ok t
  simp only [CountMutex.goOn] at hn
  simp only at hgood
  cases hpc : (s.thr t).pc with
  | idle => simp [hpc] at hn
  | locked =>
    simp only [hpc, Option.some.injEq] at hn hok
    subst hn
    exact hI.set (m := s.mutex) (by simp [hpc, Pc.off]) (fun _ _ => rfl) ⟨hsaved, hok⟩
  | unlocking =>
    simp only [hpc] at hn hok
    have howner := RecursiveMutex.own_pos_iff.1 (lt_of_lt_of_le hok.1 hok.2)
    obtain ⟨m, hm, hdepth, hown, hother⟩ := RecursiveMutex.unlock_spec howner
    rw [hm] at hn
    obtain rfl := Option.some.inj hn
    refine hI.set (c := s.cLock) ?_ (fun u hu => ?_) ⟨hsaved, ?_⟩
    · simp only [hpc, Pc.off]
      omega
    · rw [(hother u hu).1, (hother u hu).2]
    · show (s.thr t).locks - 1 ≤ m.own t
      omega
  | freeTest ret =>
    simp only [hpc] at hn hok hgood
    split_ifs at hn with hcount
    · obtain rfl := Option.some.inj hn
      refine hI.move (by simp [hpc, Pc.off]) ⟨hsaved, hok, ?_⟩
      exact RecursiveMutex.own_pos_iff.2 (hgood hcount)
    · obtain rfl := Option.some.inj hn
      refine hI.move (by simp [hpc, Pc.off]) ⟨fun p hp => ?_, Nat.zero_le _⟩
      rcases List.mem_cons.1 hp with rfl | hp
      · exact hok
      · exact hsaved p hp
  | freeUnlock ret =>
    simp only [hpc] at hn hok
    obtain ⟨hret, hpos⟩ := hok
    obtain ⟨m, hm, hdepth, -, hother⟩ :=
      RecursiveMutex.unlock_spec (RecursiveMutex.own_pos_iff.1 hpos)
    rw [hm] at hn
    obtain rfl := Option.some.inj hn
    refine hI.set (c := s.cLock) ?_ (fun u hu => ?_) ⟨hsaved, hret⟩
    · simp only [hpc, Pc.off]
      omega
    · rw [(hother u hu).1, (hother u hu).2]
  | freeCount ret =>
    simp only [hpc, Option.some.injEq] at hn hok
    subst hn
    exact hI.set (m := s.mutex) (by simp [hpc, Pc.off]) (fun _ _ => rfl) ⟨hsaved, hok⟩
  | restoreTest n =>
    simp only [hpc, Option.some.injEq] at hn hok hgood
    subst hn
    split_ifs with hcount
    · exact hI.move (by simp [hpc, Pc.off]) ⟨hsaved, hok⟩
    · exact hI.move (by simp [hpc, Pc.off]) ⟨hsaved, hok, hgood (not_lt.1 hcount)⟩
  | restoreLock n =>
    simp only [hpc] at hn hok
    obtain ⟨m, hm, rfl⟩ := Option.map_eq_some_iff.1 hn
    obtain ⟨-, hdepth, hown, hother⟩ := RecursiveMutex.lock_spec hm
    refine hI.set (c := s.cLock) ?_ hother ⟨hsaved, hok, by omega⟩
    simp only [hpc, Pc.off]
    omega
  | restoreCount n =>
    simp only [hpc, Option.some.injEq] at hn hok
    subst hn
    exact hI.set (m := s.mutex) (by simp [hpc, Pc.off]) (fun _ _ => rfl) ⟨hsaved, hok.1⟩
  | restored n =>
    simp only [hpc] at hn hok
    obtain ⟨hhead, hown⟩ := hok
    cases hlist : (s.thr t).saved with
    | nil => simp [hlist] at hn
    | cons p saved =>
      rw [hlist] at hn hhead hsaved
      obtain rfl := Option.some.inj hn
      have hp := hsaved p List.mem_cons_self
      have hfst : p.1 = n := by simpa using hhead
      refine hI.move (by simp [hpc, Pc.off]) ⟨fun q hq => hsaved q (List.mem_cons_of_mem _ hq), ?_⟩
      show p.2 ≤ s.mutex.own t
      omega

theorem next (hI : Inv s) {act : τ × Op} (hgood : Orderly s act)
    (hn : CountMutex.next s act = some s') : Inv s' := by
  obtain ⟨t, op⟩ := act
  obtain ⟨hsaved, hok⟩ := hI.ok t
  cases op with
  | lock =>
    simp only [CountMutex.next, Option.ite_none_right_eq_some] at hn
    obtain ⟨hpc, hn⟩ := hn
    obtain ⟨m, hm, rfl⟩ := Option.map_eq_some_iff.1 hn
    obtain ⟨-, hdepth, hown, hother⟩ := RecursiveMutex.lock_spec hm
    rw [hpc] at hok
    refine hI.set (c := s.cLock) ?_ hother ⟨hsaved, ?_⟩
    · simp only [hpc, Pc.off]
      omega
    · show (s.thr t).locks < m.own t
      omega
  | unlock =>
    simp only [CountMutex.next, Option.ite_none_right_eq_some, Option.some.injEq] at hn
    obtain ⟨⟨hpc, hpos⟩, rfl⟩ := hn
    rw [hpc] at hok
    exact hI.set (m := s.mutex) (by simp [hpc, Pc.off]) (fun _ _ => rfl) ⟨hsaved, hpos, hok⟩
  | freeLock =>
    simp only [CountMutex.next, Option.ite_none_right_eq_some, Option.some.injEq] at hn
    obtain ⟨⟨hpc, hpos⟩, rfl⟩ := hn
    rw [hpc] at hok
    have hown : 0 < s.mutex.own t := lt_of_lt_of_le hpos hok
    have hle := hI.own_le_cLock hpc hown
    refine hI.move (by simp [hpc, Pc.off]) ⟨hsaved, ?_⟩
    have hlocks : ((s.thr t).locks : ℤ) ≤ s.mutex.own t := Int.ofNat_le.2 hok
    exact ⟨by omega, hlocks.trans hle⟩
  | restoreLock =>
    simp only [CountMutex.next] at hn
    split at hn
    · next n locks saved hlist =>
      simp only [Option.ite_none_right_eq_some, Option.some.injEq] at hn
      obtain ⟨⟨hpc, -⟩, rfl⟩ := hn
      refine hI.move (by simp [hpc, Pc.off]) ⟨hsaved, ?_⟩
      show (s.thr t).saved.head?.map Prod.fst = some n
      rw [hlist]
      rfl
    · cases hn
  | goOn => exact hI.goOn hgood hn

omit [Fintype τ] in
/-- A step that is not orderly makes a thread unlock the mutex of another one, or ends
`RestoreLock` too early. -/
theorem orderly {act : τ × Op} (hn : CountMutex.next s act = some s') (hs : Sound s') :
    Orderly s act := by
  obtain ⟨t, op⟩ := act
  rintro rfl
  simp only [CountMutex.next, CountMutex.goOn] at hn
  cases hpc : (s.thr t).pc with
  | freeTest ret =>
    intro hcount
    simp only [hpc, if_pos hcount, Option.some.injEq] at hn
    subst hn
    have howned := hs.owned t
    simp only [State.set, Function.update_self] at howned
    exact howned rfl
  | restoreTest n =>
    intro hcount
    simp only [hpc, if_neg (not_lt.2 hcount), Option.some.injEq] at hn
    subst hn
    have hrestored := hs.restored t n
    simp only [State.set, Function.update_self, forall_const] at hrestored
    rw [RecursiveMutex.own_of_owner hrestored.1]
    exact hrestored.2
  | _ => trivial

end Inv

/-- **`FreeLock` and `RestoreLock`**: a run of any threads is sound in all its states if and only
if its steps are orderly. -/
theorem sound_iff_orderly (acts : List (τ × Op)) :
    lts.AllStates Sound (init : State τ) acts ↔ lts.AllSteps Orderly init acts :=
  LTS.allStates_iff_allSteps (I := Inv) (fun _ hI => hI.sound)
    (fun _ _ _ hI hgood hn => hI.next hgood hn) (fun _ _ _ _ hn hs => Inv.orderly hn hs) inv_init

/-- The first thread has unlocked the mutex in `FreeLock`, and the second one locks it. -/
def lockedInFreeLock : List (Bool × Op) :=
  [(false, .lock), (false, .goOn), (false, .freeLock), (false, .goOn), (false, .goOn),
    (true, .lock), (true, .goOn), (false, .goOn), (false, .goOn)]

/-- `FreeLock` finds the count of the second thread and is about to unlock its mutex. -/
theorem unlocks_other : ∃ s, lts.run (init : State Bool) lockedInFreeLock = some s ∧
    (s.thr false).pc = .freeUnlock 1 ∧ s.mutex.owner = some true ∧ ¬ Sound s := by
  refine ⟨_, rfl, by decide, by decide, fun h => ?_⟩
  exact absurd (h.owned false (by decide)) (by decide)

end CountMutex

end Swinx
