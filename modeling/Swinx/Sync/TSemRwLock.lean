import Mathlib
import Swinx.LTS.Basic
import Swinx.LTS.Sum

/-!
# The reader-writer lock of the mobile ports

A mutex, a condition variable, the number of readers, the number of waiting writers and a flag for
the writer.  Readers and writers sleep on the same condition variable.

Taking the mutex is the first step of each function; testing the predicate of a wait, or changing
the counters, is the next one, and leaves the mutex.  A thread that is woken, by a notification or
without one, takes the mutex and tests again.

* `rwLock_sound` — this holds in every reachable state.
-/

namespace Swinx

namespace TSemRwLock

/-- Where a thread is. -/
inductive Pc
  | idle
  /-- It has the mutex and tests the predicate of the readers. -/
  | testShared
  /-- It waits for a notification. -/
  | asleepShared
  /-- It was woken and needs the mutex. -/
  | wokenShared
  | holdsShared
  /-- `unlockShared`, with the mutex -/
  | unlockingShared
  | testExclusive
  | asleepExclusive
  | wokenExclusive
  | holdsExclusive
  /-- `unlockExclusive`, with the mutex -/
  | unlockingExclusive
  deriving DecidableEq, Repr

namespace Pc

/-- The thread has the mutex. -/
def hasMutex : Pc → Bool
  | testShared | testExclusive | unlockingShared | unlockingExclusive => true
  | _ => false

/-- The thread holds the lock as a reader. -/
def reads : Pc → Bool
  | holdsShared | unlockingShared => true
  | _ => false

/-- The thread holds the lock as the writer. -/
def writes : Pc → Bool
  | holdsExclusive | unlockingExclusive => true
  | _ => false

/-- The thread is in `lockExclusive` and has not acquired the lock. -/
def waits : Pc → Bool
  | testExclusive | asleepExclusive | wokenExclusive => true
  | _ => false

def isAsleep : Pc → Bool
  | asleepShared | asleepExclusive => true
  | _ => false

def isWoken : Pc → Bool
  | wokenShared | wokenExclusive => true
  | _ => false

/-- What a notification does. -/
def notified : Pc → Pc
  | asleepShared => wokenShared
  | asleepExclusive => wokenExclusive
  | pc => pc

end Pc

/-- The lock and the threads. -/
structure State (ι : Type*) where
  /-- The thread that has `m_mutex`. -/
  m_mutex : Option ι
  m_readers : ℤ
  m_writersWaiting : ℤ
  m_writer : Bool
  pc : ι → Pc
  /-- The writers that waited when a reader arrived and have not acquired the lock since. -/
  ahead : ι → ι → Bool

variable {ι : Type*} [DecidableEq ι]

def init : State ι := ⟨none, 0, 0, false, fun _ => .idle, fun _ _ => false⟩

namespace State

def goto (s : State ι) (t : ι) (pc : Pc) : State ι := { s with pc := Function.update s.pc t pc }

/-- `m_cv.notify_all()` -/
def notifyAll (s : State ι) : State ι := { s with pc := fun t => (s.pc t).notified }

/-- The mutex is taken by a thread that is at `old`. -/
def takeMutex (s : State ι) (t : ι) (old new : Pc) : Option (State ι) :=
  if s.m_mutex = none ∧ s.pc t = old then some ({ s with m_mutex := some t }.goto t new) else none

/-- `!m_writer && m_writersWaiting == 0` -/
def mayRead (s : State ι) : Bool := !s.m_writer && s.m_writersWaiting == 0

/-- `!m_writer && m_readers == 0` -/
def mayWrite (s : State ι) : Bool := !s.m_writer && s.m_readers == 0

/-- What the thread that has the mutex does until it leaves it. -/
def goOn (s : State ι) (t : ι) : Option (State ι) :=
  let s₀ := { s with m_mutex := none }
  match s.pc t with
  | .testShared =>
    if s.mayRead then some ({ s₀ with m_readers := s.m_readers + 1 }.goto t .holdsShared)
    else some (s₀.goto t .asleepShared)
  | .testExclusive =>
    if s.mayWrite then
      some
        ({ s₀ with
            m_writersWaiting := s.m_writersWaiting - 1
            m_writer := true
            ahead := fun r w => if w = t then false else s.ahead r w }.goto t .holdsExclusive)
    else some (s₀.goto t .asleepExclusive)
  | .unlockingShared =>
    let s₁ := { s₀ with m_readers := s.m_readers - 1 }.goto t .idle
    if s₁.m_readers = 0 then some s₁.notifyAll else some s₁
  | .unlockingExclusive => some ({ s₀ with m_writer := false }.goto t .idle).notifyAll
  | _ => none

end State

/-- What a thread does. -/
inductive Act (ι : Type*)
  | lockShared (t : ι)
  | unlockShared (t : ι)
  | lockExclusive (t : ι)
  | unlockExclusive (t : ι)
  /-- A thread wakes up without a notification. -/
  | wake (t : ι)
  /-- A thread that was woken takes the mutex. -/
  | relock (t : ι)
  | goOn (t : ι)
  deriving DecidableEq, Repr

/-- One step. -/
def next (s : State ι) : Act ι → Option (State ι)
  | .lockShared t =>
    { s with ahead := Function.update s.ahead t fun w => (s.pc w).waits }.takeMutex t .idle
      .testShared
  | .unlockShared t => s.takeMutex t .holdsShared .unlockingShared
  | .lockExclusive t =>
    { s with m_writersWaiting := s.m_writersWaiting + 1 }.takeMutex t .idle .testExclusive
  | .unlockExclusive t => s.takeMutex t .holdsExclusive .unlockingExclusive
  | .wake t => if (s.pc t).isAsleep then some (s.goto t (s.pc t).notified) else none
  | .relock t =>
    match s.pc t with
    | .wokenShared => s.takeMutex t .wokenShared .testShared
    | .wokenExclusive => s.takeMutex t .wokenExclusive .testExclusive
    | _ => none
  | .goOn t => s.goOn t

/-- The program. -/
def lts : LTS (State ι) (Act ι) := ⟨next⟩

/-- Nobody holds the lock or the mutex or can go on, and some thread sleeps. -/
def State.Stuck (s : State ι) : Prop :=
  (∀ t, (s.pc t).reads = false ∧ (s.pc t).writes = false) ∧ s.m_mutex = none ∧
    (∀ t, (s.pc t).hasMutex = false ∧ (s.pc t).isWoken = false) ∧ ∃ t, (s.pc t).isAsleep = true

/-- How many threads are at such a place. -/
def State.number [Fintype ι] (s : State ι) (P : Pc → Bool) : ℕ :=
  (Finset.univ.filter fun t => P (s.pc t)).card

/-- **The lock works.** -/
structure Sound [Fintype ι] (s : State ι) : Prop where
  exclusion : ∀ t u, (s.pc t).writes = true → (s.pc u).writes = true ∨ (s.pc u).reads = true → t = u
  readers : s.m_readers = s.number Pc.reads
  writersWaiting : s.m_writersWaiting = s.number Pc.waits
  /-- No reader has the lock before a writer that waited when he arrived. -/
  precedence : ∀ r w, (s.pc r).reads = true → s.ahead r w = false
  progress : ¬ s.Stuck

/-- The part of the invariant that a notification does not touch. -/
structure Core [Fintype ι] (s : State ι) : Prop where
  mutex : ∀ t, (s.pc t).hasMutex = true → s.m_mutex = some t
  readers : s.m_readers = s.number Pc.reads
  writersWaiting : s.m_writersWaiting = s.number Pc.waits
  writer : s.m_writer.toNat = s.number Pc.writes
  exclusion : s.m_writer = true → s.m_readers = 0
  ahead : ∀ r w, s.ahead r w = true → (s.pc w).waits = true
  precedence : ∀ r w, (s.pc r).reads = true → s.ahead r w = false

/-- **The invariant**: one who sleeps has a reason. -/
structure Inv [Fintype ι] (s : State ι) : Prop extends Core s where
  asleepExclusive : ∀ t, s.pc t = .asleepExclusive → s.m_writer = true ∨ s.m_readers ≠ 0
  asleepShared : ∀ t, s.pc t = .asleepShared → s.m_writer = true ∨ s.m_writersWaiting ≠ 0

variable [Fintype ι] {s s' : State ι} {t : ι} {pc : Pc}

omit [DecidableEq ι] in
theorem inv_init : Inv (init : State ι) where
  mutex := fun _ h => nomatch h
  readers := by simp [State.number, init, Pc.reads]
  writersWaiting := by simp [State.number, init, Pc.waits]
  writer := by simp [State.number, init, Pc.writes]
  exclusion := fun h => nomatch h
  asleepExclusive := fun _ h => nomatch h
  asleepShared := fun _ h => nomatch h
  ahead := fun _ _ h => nomatch h
  precedence := fun _ _ h => nomatch h

omit [DecidableEq ι] in
theorem number_pos {P : Pc → Bool} (h : P (s.pc t) = true) : 0 < s.number P :=
  Finset.card_pos.2 ⟨t, Finset.mem_filter.2 ⟨Finset.mem_univ t, h⟩⟩

omit [DecidableEq ι] in
theorem exists_of_number_ne {P : Pc → Bool} (h : s.number P ≠ 0) : ∃ t, P (s.pc t) = true := by
  obtain ⟨t, ht⟩ := Finset.card_pos.1 (Nat.pos_of_ne_zero h)
  exact ⟨t, (Finset.mem_filter.1 ht).2⟩

omit [DecidableEq ι] in
theorem Inv.sound (hI : Inv s) : Sound s where
  exclusion := fun t u ht hu => by
    have hpos := number_pos ht
    have hwriter := hI.writer
    have hset : s.m_writer = true := by
      cases h : s.m_writer with
      | true => rfl
      | false =>
        rw [h] at hwriter
        exact absurd hwriter hpos.ne
    rcases hu with hu | hu
    · have hone : s.number Pc.writes = 1 := by
        rw [← hwriter, hset]
        rfl
      exact Finset.card_le_one.1 hone.le t (Finset.mem_filter.2 ⟨Finset.mem_univ t, ht⟩) u
        (Finset.mem_filter.2 ⟨Finset.mem_univ u, hu⟩)
    · have hreaders := hI.readers
      rw [hI.exclusion hset] at hreaders
      have := number_pos hu
      omega
  readers := hI.readers
  writersWaiting := hI.writersWaiting
  precedence := hI.precedence
  progress := fun ⟨hfree, _, hnone, t, ht⟩ => by
    have hwriter : s.m_writer = false := by
      by_contra h
      have hset : s.m_writer = true := by simpa using h
      have hpos := hI.writer
      rw [hset, Bool.toNat_true] at hpos
      obtain ⟨u, hu⟩ := exists_of_number_ne (s := s) (P := Pc.writes) (by omega)
      exact absurd hu (by simp [(hfree u).2])
    have hreaders : s.m_readers = 0 := by
      by_contra h
      have hpos := hI.readers
      obtain ⟨u, hu⟩ := exists_of_number_ne (s := s) (P := Pc.reads) (by omega)
      exact absurd hu (by simp [(hfree u).1])
    have hwriters : ∀ u, s.pc u ≠ .asleepExclusive := fun u hu =>
      (hI.asleepExclusive u hu).elim (by simp [hwriter]) fun h => h hreaders
    cases hpc : s.pc t with
    | asleepExclusive => exact hwriters t hpc
    | asleepShared =>
      -- A writer waits, and is neither asleep nor can it go on.
      have hwaiting := (hI.asleepShared t hpc).resolve_left (by simp [hwriter])
      have hpos := hI.writersWaiting
      obtain ⟨u, hu⟩ := exists_of_number_ne (s := s) (P := Pc.waits) (by omega)
      have hu' := hnone u
      cases hpcu : s.pc u with
      | asleepExclusive => exact hwriters u hpcu
      | testExclusive => simp [hpcu, Pc.hasMutex] at hu'
      | wokenExclusive => simp [hpcu, Pc.isWoken] at hu'
      | _ => simp [hpcu, Pc.waits] at hu
    | _ => simp [hpc, Pc.isAsleep] at ht

omit [Fintype ι] in
theorem goto_pc : (s.goto t pc).pc = Function.update s.pc t pc := rfl

omit [DecidableEq ι] in
theorem Core.inv (hC : Core s)
    (hE : ∀ t, s.pc t = .asleepExclusive → s.m_writer = true ∨ s.m_readers ≠ 0)
    (hS : ∀ t, s.pc t = .asleepShared → s.m_writer = true ∨ s.m_writersWaiting ≠ 0) : Inv s :=
  { hC with
    asleepExclusive := hE
    asleepShared := hS }

theorem number_update (hpc : s'.pc = Function.update s.pc t pc) (P : Pc → Bool) :
    s'.number P + (P (s.pc t)).toNat = s.number P + (P pc).toNat := by
  unfold State.number
  rw [hpc]
  exact card_filter_update P s.pc (Finset.mem_univ t) pc

theorem Core.update (hC : Core s) (hpc : s'.pc = Function.update s.pc t pc)
    (hmutex : ∀ u, (s'.pc u).hasMutex = true → s'.m_mutex = some u)
    (hreaders : s'.m_readers + (s.pc t).reads.toNat = s.m_readers + pc.reads.toNat)
    (hwaiting : s'.m_writersWaiting + (s.pc t).waits.toNat =
      s.m_writersWaiting + pc.waits.toNat)
    (hwriter : s'.m_writer.toNat + (s.pc t).writes.toNat = s.m_writer.toNat + pc.writes.toNat)
    (hexclusion : s'.m_writer = true → s'.m_readers = 0)
    (hahead : ∀ r w, s'.ahead r w = true → (s'.pc w).waits = true)
    (hprecedence : ∀ r w, (s'.pc r).reads = true → s'.ahead r w = false) : Core s' where
  mutex := hmutex
  readers := by
    have hnumber := number_update hpc Pc.reads
    have hold := hC.readers
    omega
  writersWaiting := by
    have hnumber := number_update hpc Pc.waits
    have hold := hC.writersWaiting
    omega
  writer := by
    have hnumber := number_update hpc Pc.writes
    have hold := hC.writer
    omega
  exclusion := hexclusion
  ahead := hahead
  precedence := hprecedence

omit [Fintype ι] in
/-- What holds of all threads but one, and of that one where it has moved to. -/
theorem forall_of_update {P : ι → Pc → Prop} (hpc : s'.pc = Function.update s.pc t pc)
    (hrest : ∀ u, u ≠ t → P u (s.pc u)) (hpcP : P t pc) (u : ι) : P u (s'.pc u) := by
  rw [hpc]
  by_cases hu : u = t
  · subst hu
    rwa [Function.update_self]
  · rw [Function.update_of_ne hu]
    exact hrest u hu

omit [DecidableEq ι] [Fintype ι] in
/-- A notification changes who sleeps, and nothing else about the threads. -/
theorem eq_notified {P : Pc → Bool} (hP : ∀ pc, P pc.notified = P pc) (t : ι) :
    P (s.notifyAll.pc t) = P (s.pc t) := hP (s.pc t)

theorem reads_notified (pc : Pc) : pc.notified.reads = pc.reads := by cases pc <;> rfl

theorem waits_notified (pc : Pc) : pc.notified.waits = pc.waits := by cases pc <;> rfl

theorem writes_notified (pc : Pc) : pc.notified.writes = pc.writes := by cases pc <;> rfl

theorem hasMutex_notified (pc : Pc) : pc.notified.hasMutex = pc.hasMutex := by cases pc <;> rfl

theorem notified_isAsleep (pc : Pc) : pc.notified.isAsleep = false := by cases pc <;> rfl

omit [DecidableEq ι] in
theorem Core.notifyAll (hC : Core s) : Inv s.notifyAll := by
  have hnumber : ∀ P : Pc → Bool, (∀ pc, P pc.notified = P pc) →
      s.notifyAll.number P = s.number P := fun P hP => by
    unfold State.number
    simp only [eq_notified hP]
  have hawake : ∀ t, (s.notifyAll.pc t).isAsleep = false := fun t => notified_isAsleep (s.pc t)
  exact
    { mutex := fun t h => hC.mutex t ((hasMutex_notified _).symm.trans h)
      readers := by rw [hnumber _ reads_notified]; exact hC.readers
      writersWaiting := by rw [hnumber _ waits_notified]; exact hC.writersWaiting
      writer := by rw [hnumber _ writes_notified]; exact hC.writer
      exclusion := hC.exclusion
      ahead := fun r w h => (waits_notified _).trans (hC.ahead r w h)
      precedence := fun r w h => hC.precedence r w ((reads_notified _).symm.trans h)
      asleepExclusive := fun t h => by simpa [h, Pc.isAsleep] using hawake t
      asleepShared := fun t h => by simpa [h, Pc.isAsleep] using hawake t }

theorem Inv.takeMutex (hI : Inv s) {s₀ : State ι} {old new : Pc}
    (h : s₀.takeMutex t old new = some s') (hfree : s₀.m_mutex = s.m_mutex) (hpc : s₀.pc = s.pc)
    (hsame : s₀.m_readers = s.m_readers ∧ s₀.m_writer = s.m_writer)
    (hwaiting : s₀.m_writersWaiting + old.waits.toNat = s.m_writersWaiting + new.waits.toNat)
    (hreads : old.reads = new.reads) (hwrites : old.writes = new.writes)
    (hawake : new.isAsleep = false)
    (hahead : ∀ r w, s₀.ahead r w = true → (s.pc w).waits = true)
    (hwaits : old.waits = true → new.waits = true)
    (hprecedence : ∀ r w, (s.pc r).reads = true → s₀.ahead r w = false) : Inv s' := by
  unfold State.takeMutex at h
  simp only [Option.ite_none_right_eq_some] at h
  obtain ⟨⟨hnone, hold⟩, h⟩ := h
  obtain rfl := Option.some.inj h
  rw [hfree] at hnone
  rw [hpc] at hold
  have hnew : (({ s₀ with m_mutex := some t } : State ι).goto t new).pc =
      Function.update s.pc t new := by rw [← hpc]; rfl
  have hpositive : s.m_writersWaiting ≠ 0 → s₀.m_writersWaiting ≠ 0 := by
    have hcard := hI.writersWaiting
    have hle : old.waits.toNat ≤ new.waits.toNat := by
      cases hw : old.waits with
      | false => exact Nat.zero_le _
      | true => rw [hwaits hw]
    omega
  refine
    { hI.toCore.update hnew ?_ ?_ ?_ ?_ ?_ ?_ ?_ with
      asleepExclusive := ?_
      asleepShared := ?_ }
  · refine forall_of_update (P := fun u pc => pc.hasMutex = true → some t = some u) hnew
      (fun u _ hu => ?_) fun _ => rfl
    exact absurd (hnone.symm.trans (hI.mutex u hu)) (by simp)
  · change s₀.m_readers + _ = _
    rw [hold, hreads, hsame.1]
  · rw [hold]
    exact hwaiting
  · change s₀.m_writer.toNat + _ = _
    rw [hold, hwrites, hsame.2]
  · intro hw
    exact hsame.1.trans (hI.exclusion (hsame.2.symm.trans hw))
  · intro r w hrw
    have hw := hahead r w hrw
    refine forall_of_update (P := fun u pc => (s.pc u).waits = true → pc.waits = true) hnew
      (fun _ _ h => h) (fun h => hwaits (hold ▸ h)) w hw
  · intro r w hr
    refine hprecedence r w ?_
    refine forall_of_update (P := fun u pc => pc.reads = true → (s.pc u).reads = true) hnew
      (fun _ _ h => h) (fun h => ?_) r hr
    rw [hold, hreads]
    exact h
  · refine forall_of_update (P := fun u pc => pc = .asleepExclusive → _) hnew
      (fun u _ hu => ?_) fun h => ?_
    · have := hI.asleepExclusive u hu
      rwa [← hsame.1, ← hsame.2] at this
    · simp [h, Pc.isAsleep] at hawake
  · refine forall_of_update (P := fun u pc => pc = .asleepShared → _) hnew
      (fun u _ hu => ?_) fun h => ?_
    · have := (hI.asleepShared u hu).imp_right hpositive
      rwa [← hsame.2] at this
    · simp [h, Pc.isAsleep] at hawake

/-- The thread that leaves the mutex was the only one that had it. -/
theorem Core.leave (hC : Core s) (hpc : s'.pc = Function.update s.pc t pc)
    (ht : (s.pc t).hasMutex = true) (hnew : pc.hasMutex = false) (u : ι)
    (hu : (s'.pc u).hasMutex = true) : s'.m_mutex = some u := by
  refine absurd hu (forall_of_update (P := fun _ pc => ¬ pc.hasMutex = true) hpc
    (fun v hv h => ?_) (by simp [hnew]) u)
  exact hv (Option.some.inj ((hC.mutex v h).symm.trans (hC.mutex t ht)))

/-- A thread has moved, and the writers that waited still wait. -/
theorem Core.ahead_update (hC : Core s) (hpc : s'.pc = Function.update s.pc t pc)
    (hahead : ∀ r w, s'.ahead r w = true → s.ahead r w = true)
    (hself : (s.pc t).waits = true → pc.waits = true ∨ ∀ r, s'.ahead r t = false) (r w : ι)
    (h : s'.ahead r w = true) : (s'.pc w).waits = true := by
  have hold := hC.ahead r w (hahead r w h)
  refine forall_of_update (P := fun u pc => s'.ahead r u = true → (s.pc u).waits = true →
    pc.waits = true) hpc (fun _ _ _ h => h) (fun h ht => ?_) w h hold
  exact (hself ht).resolve_right fun hnone => by simp [hnone r] at h

theorem Core.precedence_update (hC : Core s) (hpc : s'.pc = Function.update s.pc t pc)
    (hahead : ∀ r w, s'.ahead r w = true → s.ahead r w = true)
    (hself : pc.reads = true → (s.pc t).reads = true ∨ ∀ w, s'.ahead t w = false) (r w : ι)
    (h : (s'.pc r).reads = true) : s'.ahead r w = false := by
  have hnone : ∀ u, (s.pc u).reads = true → s'.ahead u w = false := by
    intro u hu
    by_contra hw
    have := hahead u w (by simpa using hw)
    simp [hC.precedence u w hu] at this
  refine forall_of_update (P := fun u pc => pc.reads = true → s'.ahead u w = false) hpc
    (fun u _ hu => hnone u hu) (fun hr => ?_) r h
  exact (hself hr).elim (hnone t) fun h => h w

omit [DecidableEq ι] [Fintype ι] in
theorem mayRead_iff : s.mayRead = true ↔ s.m_writer = false ∧ s.m_writersWaiting = 0 := by
  simp [State.mayRead]

omit [DecidableEq ι] [Fintype ι] in
theorem mayWrite_iff : s.mayWrite = true ↔ s.m_writer = false ∧ s.m_readers = 0 := by
  simp [State.mayWrite]

theorem Inv.testShared (hI : Inv s) (hpc : s.pc t = .testShared)
    (h : s.goOn t = some s') : Inv s' := by
  have hmutex : (s.pc t).hasMutex = true := by rw [hpc]; rfl
  simp only [State.goOn, hpc] at h
  split_ifs at h with hmay
  · obtain rfl := Option.some.inj h
    obtain ⟨hwriter, hwaiting⟩ := mayRead_iff.1 hmay
    -- No writer waits, so none was there before the reader.
    have hnobody : ∀ w, s.ahead t w = false := by
      intro w
      by_contra hw
      have := number_pos (s := s) (P := Pc.waits) (hI.ahead t w (by simpa using hw))
      have hcard := hI.writersWaiting
      omega
    have hcard := hI.readers
    refine Core.inv (hI.toCore.update goto_pc (hI.leave goto_pc hmutex rfl) ?_ ?_ ?_ ?_
          (hI.ahead_update goto_pc (fun _ _ h => h) (by simp [hpc, Pc.waits]))
          (hI.precedence_update goto_pc (fun _ _ h => h) fun _ => .inr hnobody))
      (fun u _ => .inr ?_) (fun u hu => ?_)
    · simp [hpc, Pc.reads, State.goto]
    · simp [hpc, Pc.waits, State.goto]
    · simp [hpc, Pc.writes, State.goto]
    · exact fun hw => absurd (hwriter.symm.trans hw) (by simp)
    · change s.m_readers + 1 ≠ 0
      omega
    · refine forall_of_update (P := fun u pc => pc = .asleepShared → _) goto_pc
        (fun u _ hu => hI.asleepShared u hu) (by simp) u hu
  · obtain rfl := Option.some.inj h
    have hreason : s.m_writer = true ∨ s.m_writersWaiting ≠ 0 := by
      by_contra hno
      rw [not_or, not_not] at hno
      exact hmay (mayRead_iff.2 ⟨by simpa using hno.1, hno.2⟩)
    refine Core.inv (hI.toCore.update goto_pc (hI.leave goto_pc hmutex rfl) ?_ ?_ ?_ hI.exclusion
          (hI.ahead_update goto_pc (fun _ _ h => h) (by simp [hpc, Pc.waits]))
          (hI.precedence_update goto_pc (fun _ _ h => h) (by simp [Pc.reads])))
      (fun u hu => ?_) (fun u hu => hreason)
    · simp [hpc, Pc.reads, State.goto]
    · simp [hpc, Pc.waits, State.goto]
    · simp [hpc, Pc.writes, State.goto]
    · refine forall_of_update (P := fun u pc => pc = .asleepExclusive → _) goto_pc
        (fun u _ hu => hI.asleepExclusive u hu) (by simp) u hu

theorem Inv.testExclusive (hI : Inv s) (hpc : s.pc t = .testExclusive)
    (h : s.goOn t = some s') : Inv s' := by
  have hmutex : (s.pc t).hasMutex = true := by rw [hpc]; rfl
  simp only [State.goOn, hpc] at h
  split_ifs at h with hmay
  · obtain rfl := Option.some.inj h
    obtain ⟨hwriter, hreaders⟩ := mayWrite_iff.1 hmay
    have hfewer : ∀ r w, (if w = t then false else s.ahead r w) = true →
        s.ahead r w = true := by
      intro r w h
      split_ifs at h
      exact h
    refine Core.inv (hI.toCore.update goto_pc (hI.leave goto_pc hmutex rfl) ?_ ?_ ?_
          (fun _ => hreaders)
          (hI.ahead_update goto_pc hfewer fun _ => .inr fun r => if_pos rfl)
          (hI.precedence_update goto_pc hfewer (by simp [Pc.reads])))
      (fun u _ => .inl rfl) (fun u _ => .inl rfl)
    · simp [hpc, Pc.reads, State.goto]
    · simp [hpc, Pc.waits, State.goto]
    · simp [hpc, Pc.writes, State.goto, hwriter]
  · obtain rfl := Option.some.inj h
    have hreason : s.m_writer = true ∨ s.m_readers ≠ 0 := by
      by_contra hno
      rw [not_or, not_not] at hno
      exact hmay (mayWrite_iff.2 ⟨by simpa using hno.1, hno.2⟩)
    refine Core.inv (hI.toCore.update goto_pc (hI.leave goto_pc hmutex rfl) ?_ ?_ ?_ hI.exclusion
          (hI.ahead_update goto_pc (fun _ _ h => h) (by simp [Pc.waits]))
          (hI.precedence_update goto_pc (fun _ _ h => h) (by simp [Pc.reads])))
      (fun u _ => hreason) (fun u hu => ?_)
    · simp [hpc, Pc.reads, State.goto]
    · simp [hpc, Pc.waits, State.goto]
    · simp [hpc, Pc.writes, State.goto]
    · refine forall_of_update (P := fun u pc => pc = .asleepShared → _) goto_pc
        (fun u _ hu => hI.asleepShared u hu) (by simp) u hu

theorem Inv.unlockingShared (hI : Inv s) (hpc : s.pc t = .unlockingShared)
    (h : s.goOn t = some s') : Inv s' := by
  have hmutex : (s.pc t).hasMutex = true := by rw [hpc]; rfl
  have hpos := number_pos (s := s) (t := t) (P := Pc.reads) (by rw [hpc]; rfl)
  have hcard := hI.readers
  have hwriter : s.m_writer = false := by
    by_contra hw
    have := hI.exclusion (by simpa using hw)
    omega
  have hcore : Core
      (({ s with
          m_mutex := none
          m_readers := s.m_readers - 1 } : State ι).goto t .idle) := by
    refine hI.toCore.update goto_pc (hI.leave goto_pc hmutex rfl) ?_ ?_ ?_
      (fun hw => absurd (hwriter.symm.trans hw) (by simp))
      (hI.ahead_update goto_pc (fun _ _ h => h) (by simp [hpc, Pc.waits]))
      (hI.precedence_update goto_pc (fun _ _ h => h) (by simp [Pc.reads]))
    · simp [hpc, Pc.reads, State.goto]
    · simp [hpc, Pc.waits, State.goto]
    · simp [hpc, Pc.writes, State.goto]
  simp only [State.goOn, hpc] at h
  split_ifs at h with hlast
  · exact Option.some.inj h ▸ hcore.notifyAll
  · obtain rfl := Option.some.inj h
    refine
      { hcore with
        asleepExclusive := fun u _ => .inr hlast
        asleepShared := fun u hu => ?_ }
    refine forall_of_update (P := fun u pc => pc = .asleepShared → _) goto_pc
      (fun u _ hu => hI.asleepShared u hu) (by simp) u hu

theorem Inv.unlockingExclusive (hI : Inv s) (hpc : s.pc t = .unlockingExclusive)
    (h : s.goOn t = some s') : Inv s' := by
  have hmutex : (s.pc t).hasMutex = true := by rw [hpc]; rfl
  have hpos := number_pos (s := s) (t := t) (P := Pc.writes) (by rw [hpc]; rfl)
  have hwriter : s.m_writer = true := by
    by_contra hw
    have hcard := hI.writer
    rw [Bool.not_eq_true] at hw
    rw [hw, Bool.toNat_false] at hcard
    omega
  have hcore : Core
      (({ s with
          m_mutex := none
          m_writer := false } : State ι).goto t .idle) := by
    refine hI.toCore.update goto_pc (hI.leave goto_pc hmutex rfl) ?_ ?_ ?_
      (fun hw => nomatch hw) (hI.ahead_update goto_pc (fun _ _ h => h) (by simp [hpc, Pc.waits]))
      (hI.precedence_update goto_pc (fun _ _ h => h) (by simp [Pc.reads]))
    · simp [hpc, Pc.reads, State.goto]
    · simp [hpc, Pc.waits, State.goto]
    · simp [hpc, Pc.writes, State.goto, hwriter]
  simp only [State.goOn, hpc] at h
  exact Option.some.inj h ▸ hcore.notifyAll

theorem Inv.wake (hI : Inv s) (t : ι) : Inv (s.goto t (s.pc t).notified) := by
  have hnot : (s.pc t).notified.isAsleep = false := notified_isAsleep _
  refine Core.inv (hI.toCore.update goto_pc ?_ ?_ ?_ ?_ hI.exclusion
        (hI.ahead_update goto_pc (fun _ _ h => h) fun h => .inl ((waits_notified _).trans h))
        (hI.precedence_update goto_pc (fun _ _ h => h) fun h =>
          .inl ((reads_notified _).symm.trans h)))
      (fun u hu => ?_) (fun u hu => ?_)
  · refine forall_of_update (P := fun u pc => pc.hasMutex = true → s.m_mutex = some u) goto_pc
      (fun u _ hu => hI.mutex u hu) fun h => ?_
    exact hI.mutex t ((hasMutex_notified _).symm.trans h)
  · rw [reads_notified]
    rfl
  · rw [waits_notified]
    rfl
  · rw [writes_notified]
    rfl
  · refine forall_of_update (P := fun u pc => pc = .asleepExclusive → _) goto_pc
      (fun u _ hu => hI.asleepExclusive u hu) (fun h => ?_) u hu
    simp [h, Pc.isAsleep] at hnot
  · refine forall_of_update (P := fun u pc => pc = .asleepShared → _) goto_pc
      (fun u _ hu => hI.asleepShared u hu) (fun h => ?_) u hu
    simp [h, Pc.isAsleep] at hnot

theorem Inv.next (hI : Inv s) {act : Act ι} (h : next s act = some s') : Inv s' := by
  cases act with
  | lockShared t =>
    refine hI.takeMutex h rfl rfl ⟨rfl, rfl⟩ rfl rfl rfl rfl (fun r w hrw => ?_) id
      fun r w hr => ?_
    · by_cases hrt : r = t
      · subst hrt
        simpa only [Function.update_self] using hrw
      · exact hI.ahead r w (by simpa only [Function.update_of_ne hrt] using hrw)
    · have hrt : r ≠ t := by
        intro heq
        subst heq
        simp only [TSemRwLock.next, State.takeMutex, Option.ite_none_right_eq_some] at h
        simp [h.1.2, Pc.reads] at hr
      simpa only [Function.update_of_ne hrt] using hI.precedence r w hr
  | unlockShared t =>
    exact hI.takeMutex h rfl rfl ⟨rfl, rfl⟩ rfl rfl rfl rfl hI.ahead id hI.precedence
  | lockExclusive t =>
    exact hI.takeMutex h rfl rfl ⟨rfl, rfl⟩ (by simp [Pc.waits]) rfl rfl rfl hI.ahead
      (fun h => nomatch h) hI.precedence
  | unlockExclusive t =>
    exact hI.takeMutex h rfl rfl ⟨rfl, rfl⟩ rfl rfl rfl rfl hI.ahead id hI.precedence
  | wake t =>
    simp only [TSemRwLock.next, Option.ite_none_right_eq_some] at h
    exact Option.some.inj h.2 ▸ hI.wake t
  | relock t =>
    simp only [TSemRwLock.next] at h
    split at h
    case h_1 =>
      exact hI.takeMutex h rfl rfl ⟨rfl, rfl⟩ rfl rfl rfl rfl hI.ahead id hI.precedence
    case h_2 =>
      exact hI.takeMutex h rfl rfl ⟨rfl, rfl⟩ rfl rfl rfl rfl hI.ahead (fun _ => rfl)
        hI.precedence
    case h_3 => cases h
  | goOn t =>
    change s.goOn t = some s' at h
    cases hpc : s.pc t with
    | testShared => exact hI.testShared hpc h
    | testExclusive => exact hI.testExclusive hpc h
    | unlockingShared => exact hI.unlockingShared hpc h
    | unlockingExclusive => exact hI.unlockingExclusive hpc h
    | _ => simp [State.goOn, hpc] at h

/-- **The lock works** in every reachable state, for any number of threads. -/
theorem rwLock_sound (h : lts.Reachable init s) : Sound s :=
  (h.invariant (I := Inv) inv_init fun _ _ _ hI hn => hI.next hn).sound

/-- A writer comes while a reader has the lock. -/
def sampleActs (t u : ι) : List (Act ι) :=
  [.lockShared t, .goOn t, .lockExclusive u, .goOn u, .unlockShared t, .goOn t]

theorem rwLock_sound_sample : ∃ s : State (Fin 2), lts.run init (sampleActs 0 1) = some s ∧
    s.pc 1 = .wokenExclusive ∧ Sound s :=
  ⟨_, rfl, rfl, rwLock_sound ⟨sampleActs 0 1, rfl⟩⟩

end TSemRwLock

end Swinx
