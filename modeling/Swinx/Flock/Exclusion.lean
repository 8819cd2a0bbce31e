import Swinx.Flock.Occupancy

/-!
# Mutual exclusion of `TSemRwLock`

While a thread is in an exclusive section for a path, no other thread of any process should be in a
section for that path (`Excluded`).  The gate keeps the threads of a process apart and the record
lock keeps the processes apart, but the record lock does not survive the destruction of another
lock object: closing its descriptor drops the locks of the whole process on the file
(`intruder`).  `mutual_exclusion` says that nothing else goes wrong, as long as no lock object is
destroyed while a thread uses it and `fcntl` does not fail where it takes the lock.
-/

namespace Swinx

namespace Flock

variable {Thread Obj Pid : Type*}

/-- **Mutual exclusion**: next to an exclusive section for a path no other thread is in a section
for that path. -/
def Excluded (s : State Thread Obj Pid) : Prop :=
  ∀ t t' o o', t ≠ t' → (s.objs o).lockPath = (s.objs o').lockPath →
    s.held t o = some .exclusive → s.held t' o' = none

/-- **Occupants exclude each other.** -/
theorem Occupied.excluded {sys : Processes Thread Obj Pid} {s : State Thread Obj Pid}
    {occ : Occupancy Thread Obj Pid} (h : Occupied sys s occ) : Excluded s := by
  intro t t' o o' hne hpath hm
  by_contra hm'
  obtain ⟨m', hm'⟩ := Option.ne_none_iff_exists'.1 hm'
  have hocc := h.occ_eq (.inl ⟨_, hm, rfl⟩)
  have hocc' := h.occ_eq (.inl ⟨_, hm', rfl⟩)
  have hrec := h.record _ _ _ _ _ hocc
  have hrec' := h.record _ _ _ _ _ hocc'
  -- The record locks put both threads into one process, and there the path has one occupant.
  rw [← hpath] at hocc' hrec'
  rw [hrec.alone hrec', hocc] at hocc'
  exact hne (congrArg Prod.fst (Option.some.inj hocc'))

variable [DecidableEq Thread] [DecidableEq Obj] [DecidableEq Pid]

/-- **The steps that keep the record lock**: a lock object in use is not destroyed, no descriptor
of a file is closed while a thread of the process is inside the lock of that file, and `fcntl` does
not fail when it takes the lock. -/
def Careful (sys : Processes Thread Obj Pid) (s : State Thread Obj Pid)
    (l : Thread × Act Obj) : Prop :=
  match s.pc l.1, l.2 with
  | .idle, .destroy o => ∀ t, ¬ s.Uses t o
  | .lock _ _ .file, .step ok => ok = true
  | .close o, .step _ => (s.objs o).fd → ∀ t o', sys.object o' = sys.object o →
      (s.objs o').lockPath = (s.objs o).lockPath → ¬ s.Inside t o'
  | _, _ => True

instance (s : State Thread Obj Pid) (t : Thread) (o : Obj) : Decidable (s.Uses t o) :=
  inferInstanceAs (Decidable (_ ∨ _))

instance (s : State Thread Obj Pid) (t : Thread) (o : Obj) : Decidable (s.Inside t o) :=
  inferInstanceAs (Decidable (_ ∨ _ ∨ _))

instance [Fintype Thread] [Fintype Obj] (sys : Processes Thread Obj Pid)
    (s : State Thread Obj Pid) (l : Thread × Act Obj) : Decidable (Careful sys s l) := by
  unfold Careful
  split <;> infer_instance

/-! ### Every run -/

variable {sys : Processes Thread Obj Pid} {s s' : State Thread Obj Pid}
  {occ : Occupancy Thread Obj Pid}

omit [DecidableEq Thread] [DecidableEq Obj] [DecidableEq Pid] in
theorem occupied_init :
    Occupied sys (State.init : State Thread Obj Pid) fun _ _ => none where
  at_iff p path t o st := by simp [State.At, State.init, Pc.stage]
  alive t o st hat := by simp [State.At, State.init, Pc.stage] at hat
  gate p path g hg := by cases hg
  refs p path := ⟨∅, rfl, by simp [State.init]⟩
  record p path t o m hm := by cases hm

theorem Occupied.next {l : Thread × Act Obj} (h : Occupied sys s occ) (hobjs : Objects s)
    (hl : Careful sys s l) (hs : next sys s l = some s') : ∃ occ, Occupied sys s' occ := by
  cases step_of_next hs with
  | @init t o key opened hpc hfd hd =>
    refine ⟨occ, h.init hpc ?_⟩
    by_contra hgate
    simpa [hfd, hd] using hobjs.fd o (Bool.eq_true_of_not_eq_false hgate)
  | @acquire t o ok hpc hd =>
    have hgate : (s.objs o).gate = false := by
      simpa [hd] using (hobjs.opening t o hpc).imp_right And.right
    exact ⟨occ, h.acquire hpc hgate⟩
  | call hpc => exact ⟨occ, h.call hpc⟩
  | lock hpc ho hg hlock =>
    refine h.lock hpc ho hg (fun hplace => ?_) hlock
    subst hplace
    simpa [Careful, hpc] using hl
  | leave hpc hm => exact h.leave hpc hm
  | unlock hpc ho hg hunlock => exact h.unlock hpc ho hg hunlock
  | destroy hpc hd => exact ⟨occ, h.destroy hpc (by simpa [Careful, hpc] using hl)⟩
  | release hpc => exact ⟨occ, h.release hpc (hobjs.closing _ _ (.inl hpc))⟩
  | @close t o ok hpc =>
    have hd := hobjs.closing t o (.inr hpc)
    refine ⟨occ, h.close hpc (by simpa [Careful, hpc] using hl) fun u st hu => ?_⟩
    simpa [hd] using (h.alive u o st hu).2

/-- **Mutual exclusion holds in every run of careful steps.** -/
theorem mutual_exclusion (sys : Processes Thread Obj Pid) (ls : List (Thread × Act Obj))
    (h : (lts sys).AllSteps (Careful sys) .init ls) :
    (lts sys).AllStates Excluded .init ls := by
  refine LTS.allStates_of_allSteps (I := fun s => Objects s ∧ ∃ occ, Occupied sys s occ)
    (fun s hI => ?_) (fun s l s' hI hl hs => ?_) ⟨objects_init, _, occupied_init⟩ h
  · obtain ⟨-, occ, hocc⟩ := hI
    exact hocc.excluded
  · obtain ⟨hobjs, occ, hocc⟩ := hI
    exact ⟨hobjs.next hs, hocc.next hobjs hl hs⟩

/-! ### Two processes on one lock file -/

/-- Three threads and three lock objects; the last of each is in a process of its own. -/
def twoProcesses : Processes (Fin 3) (Fin 3) (Fin 2) where
  thread t := if t = 2 then 1 else 0
  object o := if o = 2 then 1 else 0

/-- The path of all three lock objects. -/
def share : Key := .name (some (ascii "/share_soui"))

/-- `init` of the object `o`. -/
def initSteps (t o : Fin 3) : List (Fin 3 × Act (Fin 3)) :=
  [(t, .init o share true), (t, .step true)]

/-- `lockExclusive` of the object `o`, without waiting. -/
def lockSteps (t o : Fin 3) : List (Fin 3 × Act (Fin 3)) :=
  (t, .lock o .exclusive) :: List.replicate 5 (t, .step true)

/-- The unlock of the object `o`. -/
def unlockSteps (t o : Fin 3) : List (Fin 3 × Act (Fin 3)) :=
  (t, .unlock o) :: List.replicate 5 (t, .step true)

/-- The destruction of the object `o`. -/
def destroySteps (t o : Fin 3) : List (Fin 3 × Act (Fin 3)) :=
  (t, .destroy o) :: List.replicate 2 (t, .step true)

/-- Thread `0` is in an exclusive section of object `0` when thread `1` destroys object `1`; thread
`2` then gets the lock in the other process. -/
def intruderSteps : List (Fin 3 × Act (Fin 3)) :=
  initSteps 0 0 ++ initSteps 1 1 ++ initSteps 2 2 ++ lockSteps 0 0 ++ destroySteps 1 1 ++
    lockSteps 2 2

/-- **Two processes in their exclusive sections at the same time.** -/
theorem intruder : ∃ s, (lts twoProcesses).run .init intruderSteps = some s ∧
    s.held 0 0 = some .exclusive ∧ s.held 2 2 = some .exclusive ∧
    (s.objs 0).lockPath = (s.objs 2).lockPath ∧ ¬ Excluded s := by
  have h : ∃ s, (lts twoProcesses).run .init intruderSteps = some s ∧
      s.held 0 0 = some .exclusive ∧ s.held 2 2 = some .exclusive ∧
      (s.objs 0).lockPath = (s.objs 2).lockPath :=
    ⟨_, rfl, by decide +kernel, by decide +kernel, by decide +kernel⟩
  obtain ⟨s, hs, h₀, h₂, hpath⟩ := h
  refine ⟨s, hs, h₀, h₂, hpath, fun hex => ?_⟩
  simpa [h₂] using hex 0 2 0 2 (by decide) hpath h₀

/-- The same threads, with the destruction after the unlock. -/
def handoverSteps : List (Fin 3 × Act (Fin 3)) :=
  initSteps 0 0 ++ initSteps 1 1 ++ initSteps 2 2 ++ lockSteps 0 0 ++ unlockSteps 0 0 ++
    destroySteps 1 1 ++ lockSteps 2 2

theorem mutual_exclusion_handover :
    ((lts twoProcesses).run .init handoverSteps).isSome = true ∧
      (lts twoProcesses).AllStates Excluded .init handoverSteps :=
  ⟨by decide +kernel, mutual_exclusion _ _ (by decide +kernel)⟩

end Flock

end Swinx
