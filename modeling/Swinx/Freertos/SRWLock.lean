import Mathlib
import Swinx.LTS.Basic
import Swinx.LTS.Sum

/-!
# The reader-writer lock of the FreeRTOS port

The lock is a counting semaphore: a reader takes one unit, a writer takes all of them, one by one.
Two writers that have each taken a part of the units wait for each other.

* `inv_reachable` — exclusion and the account of the units in all runs.
* `srwLock_sound` — in orderly runs the tasks are not all blocked.
* `writers_block` — two writers are.
-/

namespace Swinx

namespace SRWLock

def SRW_MAX_READERS : ℕ := 16

/-- Where a task is. -/
inductive Pc
  | idle
  /-- `AcquireSRWLockExclusive`, after `i` units -/
  | acquiring (i : ℕ)
  /-- `AcquireSRWLockShared` -/
  | acquiringShared
  /-- `TryAcquireSRWLockExclusive`, after `i` units -/
  | trying (i : ℕ)
  /-- It has failed after `i` units and has given `j` of them back. -/
  | rollingBack (i j : ℕ)
  | holdsExclusive
  | holdsShared
  /-- `ReleaseSRWLockExclusive`, after `i` units -/
  | releasing (i : ℕ)
  deriving DecidableEq, Repr

/-- The semaphore and the tasks. -/
structure State (ι : Type*) where
  sem : ℕ
  pc : ι → Pc
  /-- The units that each task has taken and not given back. -/
  units : ι → ℕ

variable {ι : Type*} [DecidableEq ι]

/-- `InitializeSRWLock` -/
def init : State ι := ⟨SRW_MAX_READERS, fun _ => .idle, fun _ => 0⟩

namespace State

def goto (s : State ι) (t : ι) (pc : Pc) : State ι := { s with pc := Function.update s.pc t pc }

/-- `sem_take` when there is a unit -/
def take (s : State ι) (t : ι) (pc : Pc) : State ι where
  sem := s.sem - 1
  pc := Function.update s.pc t pc
  units := Function.update s.units t (s.units t + 1)

/-- `sem_give`, which does nothing to a full semaphore -/
def give (s : State ι) (t : ι) (pc : Pc) : State ι where
  sem := if s.sem < SRW_MAX_READERS then s.sem + 1 else s.sem
  pc := Function.update s.pc t pc
  units := Function.update s.units t (s.units t - 1)

/-- The next call on the semaphore in the function that the task is in. -/
def goOn (s : State ι) (t : ι) : Option (State ι) :=
  match s.pc t with
  | .acquiring i =>
    if 0 < s.sem then
      some (s.take t (if i + 1 < SRW_MAX_READERS then .acquiring (i + 1) else .holdsExclusive))
    else none
  | .acquiringShared => if 0 < s.sem then some (s.take t .holdsShared) else none
  | .trying i =>
    if 0 < s.sem then
      some (s.take t (if i + 1 < SRW_MAX_READERS then .trying (i + 1) else .holdsExclusive))
    else some (s.goto t (if 0 < i then .rollingBack i 0 else .idle))
  | .rollingBack i j => some (s.give t (if j + 1 < i then .rollingBack i (j + 1) else .idle))
  | .releasing i =>
    some (s.give t (if i + 1 < SRW_MAX_READERS then .releasing (i + 1) else .idle))
  | _ => none

end State

/-- What a task does. -/
inductive Act (ι : Type*)
  | acquireExclusive (t : ι)
  | acquireShared (t : ι)
  | tryAcquireExclusive (t : ι)
  | tryAcquireShared (t : ι)
  | releaseExclusive (t : ι)
  | releaseShared (t : ι)
  | goOn (t : ι)
  deriving DecidableEq, Repr

/-- One step. -/
def next (s : State ι) : Act ι → Option (State ι)
  | .acquireExclusive t => if s.pc t = .idle then some (s.goto t (.acquiring 0)) else none
  | .acquireShared t => if s.pc t = .idle then some (s.goto t .acquiringShared) else none
  | .tryAcquireExclusive t => if s.pc t = .idle then some (s.goto t (.trying 0)) else none
  | .tryAcquireShared t =>
    if s.pc t = .idle then some (if 0 < s.sem then s.take t .holdsShared else s) else none
  | .releaseExclusive t =>
    if s.pc t = .holdsExclusive then some (s.goto t (.releasing 0)) else none
  | .releaseShared t => if s.pc t = .holdsShared then some (s.give t .idle) else none
  | .goOn t => s.goOn t

/-- The program. -/
def lts : LTS (State ι) (Act ι) := ⟨next⟩

/-- The task is in an acquire that waits. -/
def Pc.Acquires : Pc → Prop
  | .acquiring _ => True
  | .acquiringShared => True
  | _ => False

/-- All tasks that use the lock are blocked in an acquire. -/
def State.Blocked (s : State ι) : Prop :=
  s.sem = 0 ∧ (∃ t, s.pc t ≠ .idle) ∧ ∀ t, s.pc t ≠ .idle → (s.pc t).Acquires

/-- **The lock works.** -/
structure Sound [Fintype ι] (s : State ι) : Prop where
  exclusion : ∀ t u, s.pc t = .holdsExclusive →
    s.pc u = .holdsExclusive ∨ s.pc u = .holdsShared → t = u
  account : s.sem + ∑ t, s.units t = SRW_MAX_READERS
  /-- A task that does not use the lock, or has failed to acquire it, has no units. -/
  none_left : ∀ t, s.pc t = .idle → s.units t = 0
  free : ¬ s.Blocked

/-- **The steps that keep it so**: a writer takes its first unit when no other writer that waits has
a part of the units. -/
def Orderly (s : State ι) : Act ι → Prop
  | .goOn t => s.pc t = .acquiring 0 → ∀ u, ∀ i < SRW_MAX_READERS, s.pc u ≠ .acquiring (i + 1)
  | _ => True

instance decidableOrderly [Fintype ι] (s : State ι) (act : Act ι) : Decidable (Orderly s act) := by
  cases act <;> unfold Orderly <;> infer_instance

/-! ### The account of the units -/

/-- The units that a task has where it is. -/
def Pc.held : Pc → ℕ
  | .acquiring i => i
  | .trying i => i
  | .rollingBack i j => i - j
  | .holdsExclusive => SRW_MAX_READERS
  | .holdsShared => 1
  | .releasing i => SRW_MAX_READERS - i
  | _ => 0

/-- The counters of the loops are in their ranges. -/
def Pc.Fits : Pc → Prop
  | .acquiring i => i < SRW_MAX_READERS
  | .trying i => i < SRW_MAX_READERS
  | .rollingBack i j => j < i
  | .releasing i => i < SRW_MAX_READERS
  | _ => True

/-- **The invariant of all runs.** -/
structure Inv [Fintype ι] (s : State ι) : Prop where
  units : ∀ t, s.units t = (s.pc t).held
  fits : ∀ t, (s.pc t).Fits
  account : s.sem + ∑ t, s.units t = SRW_MAX_READERS

variable [Fintype ι] {s s' : State ι} {t : ι} {pc : Pc}

omit [DecidableEq ι] in
theorem inv_init : Inv (init : State ι) :=
  ⟨fun _ => rfl, fun _ => trivial, by simp [init]⟩

omit [DecidableEq ι] in
theorem Inv.units_le (hI : Inv s) (t : ι) : s.sem + (s.pc t).held ≤ SRW_MAX_READERS := by
  have hle : s.units t ≤ ∑ u, s.units u :=
    Finset.single_le_sum (fun _ _ => Nat.zero_le _) (Finset.mem_univ t)
  have hunits := hI.units t
  have haccount := hI.account
  omega

theorem Inv.units_le_two (hI : Inv s) {t u : ι} (hne : t ≠ u) :
    (s.pc t).held + (s.pc u).held ≤ SRW_MAX_READERS := by
  have hle : ∑ v ∈ {t, u}, s.units v ≤ ∑ v, s.units v :=
    Finset.sum_le_sum_of_subset (Finset.subset_univ _)
  rw [Finset.sum_pair hne, hI.units t, hI.units u] at hle
  have haccount := hI.account
  omega

omit [Fintype ι] in
theorem forall_update {P : ι → Pc → Prop} (h : ∀ u, P u (s.pc u)) (hpc : P t pc) (u : ι) :
    P u (Function.update s.pc t pc u) := by
  by_cases hu : u = t
  · subst hu
    rwa [Function.update_self]
  · rw [Function.update_of_ne hu]
    exact h u

theorem Inv.units_update (hI : Inv s) (t : ι) (pc : Pc) (u : ι) :
    Function.update s.units t pc.held u = (Function.update s.pc t pc u).held := by
  by_cases hu : u = t
  · subst hu
    rw [Function.update_self, Function.update_self]
  · rw [Function.update_of_ne hu, Function.update_of_ne hu]
    exact hI.units u

theorem Inv.goto (hI : Inv s) (hheld : pc.held = (s.pc t).held) (hfits : pc.Fits) :
    Inv (s.goto t pc) := by
  refine ⟨fun u => ?_, forall_update (P := fun _ pc => pc.Fits) hI.fits hfits, hI.account⟩
  have hsame : Function.update s.units t pc.held = s.units := by
    rw [hheld, ← hI.units t, Function.update_eq_self]
  exact (congrFun hsame u).symm.trans (hI.units_update t pc u)

theorem Inv.take (hI : Inv s) (hsem : 0 < s.sem) (hheld : pc.held = (s.pc t).held + 1)
    (hfits : pc.Fits) : Inv (s.take t pc) := by
  have hunits : (s.take t pc).units = Function.update s.units t pc.held := by
    rw [hheld, ← hI.units t]
    rfl
  refine ⟨fun u => ?_, forall_update (P := fun _ pc => pc.Fits) hI.fits hfits, ?_⟩
  · rw [hunits]
    exact hI.units_update t pc u
  · have hsum := sum_update_add (fun _ n => n) s.units (Finset.mem_univ t) pc.held
    have haccount := hI.account
    have hold := hI.units t
    rw [hunits]
    change s.sem - 1 + _ = _
    omega

theorem Inv.give (hI : Inv s) (hheld : pc.held + 1 = (s.pc t).held) (hfits : pc.Fits) :
    Inv (s.give t pc) := by
  have hunits : (s.give t pc).units = Function.update s.units t pc.held := by
    have : s.units t - 1 = pc.held := by
      rw [hI.units t]
      omega
    rw [← this]
    rfl
  have hroom : s.sem < SRW_MAX_READERS := by
    have := hI.units_le t
    omega
  refine ⟨fun u => ?_, forall_update (P := fun _ pc => pc.Fits) hI.fits hfits, ?_⟩
  · rw [hunits]
    exact hI.units_update t pc u
  · have hsum := sum_update_add (fun _ n => n) s.units (Finset.mem_univ t) pc.held
    have haccount := hI.account
    have hold := hI.units t
    have hsem : (s.give t pc).sem = s.sem + 1 := if_pos hroom
    rw [hunits, hsem]
    omega

theorem Inv.goOn (hI : Inv s) (h : s.goOn t = some s') : Inv s' := by
  have hfits := hI.fits t
  unfold State.goOn at h
  split at h
  case h_1 i hpc =>
    rw [hpc] at hfits
    split_ifs at h with hsem hi
    · obtain rfl := Option.some.inj h
      exact hI.take hsem (by rw [hpc]; rfl) hi
    · obtain rfl := Option.some.inj h
      refine hI.take hsem ?_ trivial
      simp only [hpc, Pc.held, Pc.Fits] at hfits ⊢
      omega
  case h_2 hpc =>
    split_ifs at h with hsem
    obtain rfl := Option.some.inj h
    exact hI.take hsem (by rw [hpc]; rfl) trivial
  case h_3 i hpc =>
    rw [hpc] at hfits
    split_ifs at h with hsem hi hi
    · obtain rfl := Option.some.inj h
      exact hI.take hsem (by rw [hpc]; rfl) hi
    · obtain rfl := Option.some.inj h
      refine hI.take hsem ?_ trivial
      simp only [hpc, Pc.held, Pc.Fits] at hfits ⊢
      omega
    · obtain rfl := Option.some.inj h
      exact hI.goto (by rw [hpc]; rfl) hi
    · obtain rfl := Option.some.inj h
      refine hI.goto ?_ trivial
      simp only [hpc, Pc.held]
      omega
  case h_4 i j hpc =>
    rw [hpc] at hfits
    obtain rfl := Option.some.inj h
    simp only [Pc.Fits] at hfits
    split_ifs with hj
    · refine hI.give ?_ hj
      simp only [hpc, Pc.held]
      omega
    · refine hI.give ?_ trivial
      simp only [hpc, Pc.held]
      omega
  case h_5 i hpc =>
    rw [hpc] at hfits
    obtain rfl := Option.some.inj h
    simp only [Pc.Fits] at hfits
    split_ifs with hi
    · refine hI.give ?_ hi
      simp only [hpc, Pc.held]
      omega
    · refine hI.give ?_ trivial
      simp only [hpc, Pc.held]
      omega
  case h_6 => cases h

theorem Inv.next (hI : Inv s) {act : Act ι} (h : next s act = some s') : Inv s' := by
  cases act with
  | acquireExclusive t =>
    simp only [SRWLock.next, Option.ite_none_right_eq_some] at h
    exact Option.some.inj h.2 ▸ hI.goto (by rw [h.1]; rfl) (Nat.succ_pos 15)
  | acquireShared t =>
    simp only [SRWLock.next, Option.ite_none_right_eq_some] at h
    exact Option.some.inj h.2 ▸ hI.goto (by rw [h.1]; rfl) trivial
  | tryAcquireExclusive t =>
    simp only [SRWLock.next, Option.ite_none_right_eq_some] at h
    exact Option.some.inj h.2 ▸ hI.goto (by rw [h.1]; rfl) (Nat.succ_pos 15)
  | tryAcquireShared t =>
    simp only [SRWLock.next, Option.ite_none_right_eq_some] at h
    obtain ⟨hidle, h⟩ := h
    obtain rfl := Option.some.inj h
    split_ifs with hsem
    · exact hI.take hsem (by rw [hidle]; rfl) trivial
    · exact hI
  | releaseExclusive t =>
    simp only [SRWLock.next, Option.ite_none_right_eq_some] at h
    exact Option.some.inj h.2 ▸ hI.goto (by rw [h.1]; rfl) (Nat.succ_pos 15)
  | releaseShared t =>
    simp only [SRWLock.next, Option.ite_none_right_eq_some] at h
    exact Option.some.inj h.2 ▸ hI.give (by rw [h.1]; rfl) trivial
  | goOn t => exact hI.goOn h

/-- **The account of the units in all runs.** -/
theorem inv_reachable (h : lts.Reachable init s) : Inv s :=
  h.invariant inv_init fun _ _ _ hI hn => hI.next hn

/-! ### Runs in which the writers do not meet -/

/-- At most one writer that waits has a part of the units. -/
def OneCollects (s : State ι) : Prop :=
  ∀ t u i j, s.pc t = .acquiring (i + 1) → s.pc u = .acquiring (j + 1) → t = u

theorem Inv.sound (hI : Inv s) (hone : OneCollects s) : Sound s where
  exclusion := fun t u ht hu => by
    by_contra hne
    have hle := hI.units_le_two hne
    rw [ht] at hle
    rcases hu with hu | hu
    all_goals
      rw [hu] at hle
      simp only [Pc.held, SRW_MAX_READERS] at hle
      omega
  account := hI.account
  none_left := fun t ht => by rw [hI.units t, ht]; rfl
  free := fun ⟨hsem, _, hall⟩ => by
    have haccount := hI.account
    -- One of the tasks has units, and no other one has any.
    obtain ⟨t, -, ht⟩ : ∃ t ∈ Finset.univ, s.units t ≠ 0 := by
      refine Finset.exists_ne_zero_of_sum_ne_zero ?_
      simp only [SRW_MAX_READERS] at haccount
      omega
    have hpart : ∀ u, s.units u ≠ 0 → ∃ i, s.pc u = .acquiring (i + 1) := by
      intro u hu
      rw [hI.units u] at hu
      have hacquires := hall u fun h => hu (by rw [h]; rfl)
      cases hpc : s.pc u with
      | acquiring i =>
        rw [hpc] at hu
        exact ⟨i - 1, congrArg _ (Nat.succ_pred_eq_of_ne_zero hu).symm⟩
      | acquiringShared => exact absurd (by rw [hpc]; rfl) hu
      | _ => exact absurd hacquires (by simp [hpc, Pc.Acquires])
    obtain ⟨i, hi⟩ := hpart t ht
    have honly : ∑ u, s.units u = s.units t := by
      refine Finset.sum_eq_single t (fun u _ hut => ?_) fun h => absurd (Finset.mem_univ t) h
      by_contra hu
      obtain ⟨j, hj⟩ := hpart u hu
      exact hut (hone u t j i hj hi)
    have hfits := hI.fits t
    have hunits := hI.units t
    rw [hi] at hfits hunits
    simp only [Pc.Fits, Pc.held] at hfits hunits
    omega

omit [Fintype ι] in
/-- A task that moves does not become a second writer with a part of the units. -/
theorem OneCollects.update (hone : OneCollects s) (hpc : s'.pc = Function.update s.pc t pc)
    (hnew : ∀ i, pc = .acquiring (i + 1) →
      (∃ j, s.pc t = .acquiring (j + 1)) ∨ ∀ u j, s.pc u ≠ .acquiring (j + 1)) :
    OneCollects s' := by
  intro u v i j hu hv
  rw [hpc] at hu hv
  have hold : ∀ w k, w ≠ t → Function.update s.pc t pc w = .acquiring (k + 1) →
      s.pc w = .acquiring (k + 1) := fun w k hw h => (Function.update_of_ne hw _ _).symm.trans h
  have hmeets : ∀ w k i, w ≠ t → s.pc w = .acquiring (k + 1) → pc ≠ .acquiring (i + 1) := by
    intro w k i hw hwk h
    rcases hnew i h with ⟨j, hj⟩ | hnone
    · exact hw (hone w t k j hwk hj)
    · exact hnone w k hwk
  by_cases hut : u = t
  · subst hut
    by_cases hvt : v = u
    · exact hvt.symm
    · exact absurd ((Function.update_self _ _ _).symm.trans hu)
        (hmeets v j i hvt (hold v j hvt hv))
  · by_cases hvt : v = t
    · subst hvt
      exact absurd ((Function.update_self _ _ _).symm.trans hv)
        (hmeets u i j hut (hold u i hut hu))
    · exact hone u v i j (hold u i hut hu) (hold v j hvt hv)

theorem OneCollects.next (hI : Inv s) (hone : OneCollects s) {act : Act ι} (ho : Orderly s act)
    (h : next s act = some s') : OneCollects s' := by
  cases act with
  | acquireExclusive t =>
    simp only [SRWLock.next, Option.ite_none_right_eq_some] at h
    obtain rfl := Option.some.inj h.2
    exact hone.update rfl fun i hi => nomatch hi
  | acquireShared t =>
    simp only [SRWLock.next, Option.ite_none_right_eq_some] at h
    obtain rfl := Option.some.inj h.2
    exact hone.update rfl fun i hi => nomatch hi
  | tryAcquireExclusive t =>
    simp only [SRWLock.next, Option.ite_none_right_eq_some] at h
    obtain rfl := Option.some.inj h.2
    exact hone.update rfl fun i hi => nomatch hi
  | tryAcquireShared t =>
    simp only [SRWLock.next, Option.ite_none_right_eq_some] at h
    obtain rfl := Option.some.inj h.2
    split_ifs
    · exact hone.update rfl fun i hi => nomatch hi
    · exact hone
  | releaseExclusive t =>
    simp only [SRWLock.next, Option.ite_none_right_eq_some] at h
    obtain rfl := Option.some.inj h.2
    exact hone.update rfl fun i hi => nomatch hi
  | releaseShared t =>
    simp only [SRWLock.next, Option.ite_none_right_eq_some] at h
    obtain rfl := Option.some.inj h.2
    exact hone.update rfl fun i hi => nomatch hi
  | goOn t =>
    simp only [SRWLock.next, State.goOn] at h
    split at h
    case h_1 i hpc =>
      simp only [Option.ite_none_right_eq_some] at h
      obtain rfl := Option.some.inj h.2
      refine hone.update rfl fun _ _ => ?_
      cases i with
      | zero =>
        refine .inr fun u j hu => ?_
        have hj := hI.fits u
        rw [hu] at hj
        exact ho hpc u j (Nat.lt_of_succ_lt hj) hu
      | succ j => exact .inl ⟨j, hpc⟩
    case h_2 =>
      split_ifs at h
      obtain rfl := Option.some.inj h
      exact hone.update rfl fun i hi => nomatch hi
    case h_3 i hpc =>
      split_ifs at h
      all_goals
        obtain rfl := Option.some.inj h
        exact hone.update rfl fun i hi => nomatch hi
    case h_4 i j hpc =>
      obtain rfl := Option.some.inj h
      refine hone.update rfl fun i hi => ?_
      split_ifs at hi
    case h_5 i hpc =>
      obtain rfl := Option.some.inj h
      refine hone.update rfl fun i hi => ?_
      split_ifs at hi
    case h_6 => cases h

/-- **The lock works** in runs in which no two writers collect units. -/
theorem srwLock_sound (acts : List (Act ι)) (h : lts.AllSteps Orderly init acts) :
    lts.AllStates Sound (init : State ι) acts :=
  LTS.allStates_of_allSteps (I := fun s => Inv s ∧ OneCollects s) (fun _ hI => hI.1.sound hI.2)
    (fun _ _ _ hI ho hn => ⟨hI.1.next hn, hI.2.next hI.1 ho hn⟩)
    ⟨inv_init, fun _ _ _ _ h => nomatch h⟩ h

/-- A task makes its next calls. -/
def turns (n : ℕ) (t : ι) : List (Act ι) := List.replicate n (.goOn t)

/-- Two readers, one of which becomes a writer while a third task tries. -/
def sampleActs (t u v : ι) : List (Act ι) :=
  List.flatten [[.acquireShared t, .goOn t, .acquireShared u, .goOn u, .tryAcquireExclusive v,
    .releaseShared t, .acquireExclusive t, .goOn t, .goOn v, .goOn t, .goOn v, .releaseShared u],
    turns 12 t, turns 3 v, turns 2 t, [.releaseExclusive t], turns 16 t]

theorem srwLock_sound_sample : lts.AllStates Sound init (sampleActs (0 : Fin 3) 1 2) :=
  srwLock_sound _ (by decide +kernel)

/-- Two tasks acquire the lock exclusively. -/
def blockingActs (t u : ι) : List (Act ι) :=
  List.flatten [[.acquireExclusive t, .acquireExclusive u], turns 8 t, turns 8 u]

/-- **Two writers block each other**: each has half of the units and waits for the others. -/
theorem writers_block : ∃ s, lts.run init (blockingActs (0 : Fin 2) 1) = some s ∧ s.sem = 0 ∧
    s.pc 0 = .acquiring 8 ∧ s.pc 1 = .acquiring 8 ∧ ¬ Sound s := by
  obtain ⟨s, hs, hview⟩ : ∃ s, lts.run init (blockingActs (0 : Fin 2) 1) = some s ∧
      (s.sem, s.pc 0, s.pc 1) = (0, .acquiring 8, .acquiring 8) :=
    Option.map_eq_some_iff.1 (by decide +kernel)
  simp only [Prod.mk.injEq] at hview
  obtain ⟨hsem, h₀, h₁⟩ := hview
  refine ⟨s, hs, hsem, h₀, h₁, fun h => h.free ⟨hsem, ⟨0, by rw [h₀]; decide⟩, fun t _ => ?_⟩⟩
  fin_cases t
  · exact h₀ ▸ trivial
  · exact h₁ ▸ trivial

end SRWLock

end Swinx
