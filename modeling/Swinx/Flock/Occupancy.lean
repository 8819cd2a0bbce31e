import Mathlib.Data.Finset.Card
import Swinx.Flock.Basic

/-!
# Who occupies a lock

In each process at most one thread at a time occupies a path, from the moment it has the gate until
it gives it back (`Occupied`).  Its `Stage` says what `holders` counts and when the process must
have its record lock.  The table of gates counts the lock objects that use them, so a gate stays
while it is occupied.

* `Objects.next` — what is true of a lock object while it is initialised and destroyed.
* `Occupied.lock`, `Occupied.unlock`, `Occupied.leave` — occupants come and go.
* `Occupied.init`, `Occupied.acquire`, `Occupied.destroy`, `Occupied.release`, `Occupied.close` :
  so do objects.
-/

namespace Swinx

namespace Flock

open Function (update update_apply update_of_ne)

variable {Thread Obj Pid : Type*}

/-! ### What a thread does with the gate -/

/-- How far the occupant of a gate has come. -/
inductive Stage where
  /-- It has the gate. -/
  | entered
  /-- It has counted itself in `holders`. -/
  | counted
  /-- It has the record lock. -/
  | locked (m : LockMode)
  /-- It has left the section and still counts. -/
  | leaving
  /-- It does not count any more. -/
  | left
  deriving DecidableEq, Repr

/-- What the occupant contributes to `holders`. -/
def Stage.holders : Stage → ℤ
  | .entered | .left => 0
  | .counted | .locked _ | .leaving => 1

/-- The gate a thread occupies in a lock or unlock call. -/
def Pc.stage : Pc Obj → Option (Obj × Stage)
  | .lock o _ .op | .lock o _ .count => some (o, .entered)
  | .lock o _ .file => some (o, .counted)
  | .lock o m .opUnlock => some (o, .locked m)
  | .unlock o .op | .unlock o .count => some (o, .leaving)
  | .unlock o .file | .unlock o .opUnlock | .unlock o .gate => some (o, .left)
  | _ => none

/-- The thread `t` occupies the gate of `o`, and has come so far. -/
def State.At (s : State Thread Obj Pid) (t : Thread) (o : Obj) (st : Stage) : Prop :=
  (∃ m, s.held t o = some m ∧ st = .locked m) ∨ (s.pc t).stage = some (o, st)

/-- The thread `t` is in a section of `o`, or in a call on `o`. -/
def State.Uses (s : State Thread Obj Pid) (t : Thread) (o : Obj) : Prop :=
  (s.held t o).isSome ∨ (s.pc t).obj = some o

/-- The thread `t` is inside the lock of `o`: behind `setFileLock` in its lock call and not yet in
its unlock call. -/
def State.Inside (s : State Thread Obj Pid) (t : Thread) (o : Obj) : Prop :=
  (s.held t o).isSome ∨ (s.pc t).stage = some (o, .locked .shared) ∨
    (s.pc t).stage = some (o, .locked .exclusive)

variable (sys : Processes Thread Obj Pid)

/-! ### The abstract lock -/

/-- Who occupies a path in a process. -/
abbrev Occupancy (Thread Obj Pid : Type*) := Pid → Path → Option (Thread × Obj × Stage)

/-- What the occupant of a path contributes to `holders`. -/
def holdersOf (c : Option (Thread × Obj × Stage)) : ℤ := c.elim 0 fun c => c.2.2.holders

/-- The references a gate table counts for a path. -/
def refsOf (g : Option GateState) : ℕ := g.elim 0 GateState.refs

/-- **The invariant**: the state is that of a lock with the occupants `occ`. -/
structure Occupied (s : State Thread Obj Pid) (occ : Occupancy Thread Obj Pid) : Prop where
  /-- The threads that have a gate are the occupants. -/
  at_iff : ∀ p path t o st, occ p path = some (t, o, st) ↔
    s.At t o st ∧ sys.object o = p ∧ (s.objs o).lockPath = path
  /-- An occupied object is alive and has its gate. -/
  alive : ∀ t o st, s.At t o st → (s.objs o).gate = true ∧ (s.objs o).destroyed = false
  /-- The gate is locked while somebody occupies the path, and `holders` counts the occupant. -/
  gate : ∀ p path g, s.gates p path = some g →
    g.gate = (occ p path).isSome ∧ g.holders = holdersOf (occ p path) ∧ 0 < g.refs
  /-- `refs` counts the objects that have the gate. -/
  refs : ∀ p path, ∃ S : Finset Obj, refsOf (s.gates p path) = S.card ∧
    ∀ o, o ∈ S ↔ sys.object o = p ∧ (s.objs o).gate = true ∧ (s.objs o).lockPath = path
  /-- An occupant that needs the record lock has it. -/
  record : ∀ p path t o m, occ p path = some (t, o, .locked m) → (s.locks path).Holds p m

/-! ### The life of lock objects -/

/-- Where the members of a lock object stand while it is initialised and destroyed. -/
structure Objects (s : State Thread Obj Pid) : Prop where
  fd : ∀ o, (s.objs o).gate = true → (s.objs o).fd = true ∨ (s.objs o).destroyed = true
  opening : ∀ t o, s.pc t = .init o →
    (s.objs o).destroyed = true ∨ (s.objs o).fd = true ∧ (s.objs o).gate = false
  /-- One thread at a time initialises an object. -/
  opener : ∀ t t' o, s.pc t = .init o → s.pc t' = .init o → t = t'
  closing : ∀ t o, s.pc t = .release o ∨ s.pc t = .close o → (s.objs o).destroyed = true

theorem objects_init : Objects (State.init : State Thread Obj Pid) := by
  constructor <;> simp [State.init]

/-- Is a thread outside the constructor and the destructor? -/
def Pc.locking : Pc Obj → Bool
  | .idle | .lock .. | .unlock .. => true
  | _ => false

/-- A step that only works on the gate leaves the life of the objects alone. -/
theorem Objects.congr {s s' : State Thread Obj Pid} (h : Objects s) (hobjs : s'.objs = s.objs)
    (hpc : ∀ t pc, s'.pc t = pc → pc.locking = false → s.pc t = pc) : Objects s' where
  fd := hobjs ▸ h.fd
  opening t o ht := hobjs ▸ h.opening t o (hpc t _ ht rfl)
  opener t t' o ht ht' := h.opener t t' o (hpc t _ ht rfl) (hpc t' _ ht' rfl)
  closing t o ht := hobjs ▸ h.closing t o (ht.imp (hpc t _ · rfl) (hpc t _ · rfl))

variable {sys}

theorem locking_goto [DecidableEq Thread] {s : State Thread Obj Pid} {t u : Thread}
    {pc pc' : Pc Obj} (hpc : pc.locking = true) (hu : (s.goto t pc).pc u = pc')
    (hl : pc'.locking = false) : s.pc u = pc' := by
  rw [State.goto_pc, update_apply] at hu
  split_ifs at hu with hut
  · rw [hu, hl] at hpc
    cases hpc
  · exact hu

variable [DecidableEq Thread] [DecidableEq Obj] [DecidableEq Pid]

theorem objects_lock {s s' : State Thread Obj Pid} {t : Thread} {o : Obj} {m : LockMode}
    {g : GateState} {ok : Bool} {place : LockAt} (h : Objects s)
    (hs : s.lock sys t o m g ok place = some s') : Objects s' := by
  cases place with
  | gate | op =>
    simp only [State.lock] at hs
    split_ifs at hs
    cases hs
    exact h.congr rfl fun u pc => locking_goto rfl
  | count =>
    cases hs
    exact h.congr rfl fun u pc => locking_goto rfl
  | file =>
    obtain ⟨s₁, hs₁, rfl⟩ := Option.map_eq_some_iff.1 hs
    obtain ⟨l, rfl, -⟩ := State.setFileLock_eq_some hs₁
    exact h.congr rfl fun u pc => locking_goto rfl
  | opUnlock =>
    cases hs
    exact h.congr rfl fun u pc => locking_goto rfl

omit [DecidableEq Obj] in
theorem objects_unlock {s s' : State Thread Obj Pid} {t : Thread} {o : Obj}
    {g : GateState} {ok : Bool} {place : UnlockAt} (h : Objects s)
    (hs : s.unlock sys t o g ok place = some s') : Objects s' := by
  cases place with
  | op =>
    simp only [State.unlock] at hs
    split_ifs at hs
    cases hs
    exact h.congr rfl fun u pc => locking_goto rfl
  | file =>
    obtain ⟨s₁, hs₁, rfl⟩ := Option.map_eq_some_iff.1 hs
    obtain ⟨l, rfl, -⟩ := State.setFileLock_eq_some hs₁
    exact h.congr rfl fun u pc => locking_goto rfl
  | count | opUnlock | gate =>
    cases hs
    exact h.congr rfl fun u pc => locking_goto rfl

theorem Objects.next {s s' : State Thread Obj Pid} {l : Thread × Act Obj} (h : Objects s)
    (hs : next sys s l = some s') : Objects s' := by
  cases step_of_next hs with
  | call hpc => exact h.congr rfl fun u pc => locking_goto rfl
  | leave hpc hm => exact h.congr rfl fun u pc => locking_goto rfl
  | lock hpc ho hg hl => exact objects_lock h hl
  | unlock hpc ho hg hl => exact objects_unlock h hl
  | init hpc hfd hd | acquire hpc hd | destroy hpc hd | release hpc | close hpc =>
    obtain ⟨h₁, h₂, h₃, h₄⟩ := h
    constructor <;> intro u <;> simp only [State.goto, State.setObj, State.setTable,
      State.setLocks, update_apply] <;> grind

/-! ### Occupants come and go -/

variable {s s' : State Thread Obj Pid} {occ : Occupancy Thread Obj Pid} {t : Thread} {o : Obj}

namespace Occupied

omit [DecidableEq Thread] [DecidableEq Obj] [DecidableEq Pid] in
theorem occ_eq (h : Occupied sys s occ) {st : Stage} (hat : s.At t o st) :
    occ (sys.object o) (s.objs o).lockPath = some (t, o, st) :=
  (h.at_iff _ _ t o st).2 ⟨hat, rfl, rfl⟩

omit [DecidableEq Thread] [DecidableEq Obj] [DecidableEq Pid] in
theorem held_eq_none (h : Occupied sys s occ) {x : Option (Thread × Obj × Stage)}
    (hx : occ (sys.object o) (s.objs o).lockPath = x) (hne : ∀ m, x ≠ some (t, o, .locked m)) :
    s.held t o = none := by
  cases hm : s.held t o with
  | none => rfl
  | some m => exact absurd (hx.symm.trans (h.occ_eq (.inl ⟨m, hm, rfl⟩))) (hne m)

/-- **The thread `t` moves on at the gate of `o`**, from the stage `x` to the stage `y`. -/
theorem move {x y : Option Stage} {g r : GateState} (h : Occupied sys s occ)
    (ho : (s.objs o).gate = true ∧ (s.objs o).destroyed = false)
    (hg : s.gateState sys o = some g)
    (hx : occ (sys.object o) (s.objs o).lockPath = x.map fun st => (t, o, st))
    (hother : ∀ u o' st, (u, o') ≠ (t, o) → (s'.At u o' st ↔ s.At u o' st))
    (hat : ∀ st, s'.At t o st ↔ y = some st) (hobjs : s'.objs = s.objs)
    (hgates : s'.gates = (s.setGateState sys o r).gates) (hgate : r.gate = y.isSome)
    (hholders : r.holders = y.elim 0 Stage.holders) (hrefs : r.refs = g.refs)
    (hlocks : ∀ p path m, ¬ (p = sys.object o ∧ path = (s.objs o).lockPath) →
      (s.locks path).Holds p m → (s'.locks path).Holds p m)
    (hrec : ∀ m, y = some (.locked m) → (s'.locks (s.objs o).lockPath).Holds (sys.object o) m) :
    ∃ occ, Occupied sys s' occ := by
  refine ⟨fun p path => if p = sys.object o ∧ path = (s.objs o).lockPath then
    y.map fun st => (t, o, st) else occ p path, ?_, ?_, ?_, ?_, ?_⟩
  · intro p path u o' st
    rw [hobjs]
    by_cases huo : (u, o') = (t, o)
    · cases huo
      rw [hat]
      split_ifs with hp
      · obtain ⟨rfl, rfl⟩ := hp
        simp
      · rw [h.at_iff]
        constructor
        · rintro ⟨-, rfl, rfl⟩
          exact absurd ⟨rfl, rfl⟩ hp
        · rintro ⟨-, rfl, rfl⟩
          exact absurd ⟨rfl, rfl⟩ hp
    · rw [hother u o' st huo, ← h.at_iff]
      split_ifs with hp
      · obtain ⟨rfl, rfl⟩ := hp
        have hne : ∀ z : Option Stage, (z.map fun st => (t, o, st)) ≠ some (u, o', st) := by
          intro z hz
          obtain ⟨_, -, hz⟩ := Option.map_eq_some_iff.1 hz
          exact huo (Prod.ext (congrArg Prod.fst hz).symm (congrArg (·.2.1) hz).symm)
        rw [hx]
        exact iff_of_false (hne y) (hne x)
      · rfl
  · intro u o' st hu
    rw [hobjs]
    by_cases huo : (u, o') = (t, o)
    · cases huo
      exact ho
    · exact h.alive u o' st ((hother u o' st huo).1 hu)
  · intro p path g₁ hg₁
    rw [hgates, State.gates_setGateState] at hg₁
    split_ifs at hg₁ ⊢ with hp
    · cases hg₁
      rw [hgate, hholders, hrefs]
      refine ⟨by simp, ?_, (h.gate _ _ g hg).2.2⟩
      cases y with
      | none => rfl
      | some st => rfl
    · exact h.gate p path g₁ hg₁
  · intro p path
    obtain ⟨S, hS, hmem⟩ := h.refs p path
    refine ⟨S, ?_, hobjs ▸ hmem⟩
    rw [hgates, State.gates_setGateState, ← hS]
    split_ifs with hp
    · obtain ⟨rfl, rfl⟩ := hp
      have hg : s.gates (sys.object o) (s.objs o).lockPath = some g := hg
      rw [hg]
      exact hrefs
    · rfl
  · intro p path u o' m hm
    split_ifs at hm with hp
    · obtain ⟨rfl, rfl⟩ := hp
      obtain ⟨st, hy, hst⟩ := Option.map_eq_some_iff.1 hm
      cases hst
      exact hrec m hy
    · exact hlocks p path m hp (h.record p path u o' m hm)

/-- A thread that is in no section of `o` moves on inside a lock or unlock call. -/
theorem goto {x y : Option Stage} {g g' : GateState} {pc : Pc Obj} {l : RecordLocks Pid}
    (h : Occupied sys s occ) (ho : (s.objs o).gate = true ∧ (s.objs o).destroyed = false)
    (hg : s.gateState sys o = some g)
    (hx : occ (sys.object o) (s.objs o).lockPath = x.map fun st => (t, o, st))
    (hxm : ∀ m, x ≠ some (.locked m)) (hold : (s.pc t).stage = x.map fun st => (o, st))
    (hnew : pc.stage = y.map fun st => (o, st)) (hgate : g'.gate = y.isSome)
    (hholders : g'.holders = y.elim 0 Stage.holders) (hrefs : g'.refs = g.refs)
    (hlocks : ∀ q m, q ≠ sys.object o → (s.locks (s.objs o).lockPath).Holds q m → l.Holds q m)
    (hrec : ∀ m, y = some (.locked m) → l.Holds (sys.object o) m) :
    ∃ occ, Occupied sys
      (((s.setGateState sys o g').setLocks (s.objs o).lockPath l).goto t pc) occ := by
  have hheld : s.held t o = none := by
    refine h.held_eq_none hx fun m hm => ?_
    obtain ⟨st, hst, he⟩ := Option.map_eq_some_iff.1 hm
    cases he
    exact hxm m hst
  refine h.move (y := y) (r := g') ho hg hx (fun u o' st huo => ?_) (fun st => ?_) rfl rfl hgate
    hholders hrefs (fun p path m hp hm => ?_) fun m hm => ?_
  · simp only [State.At, State.goto_held, State.goto_pc, State.setLocks_held, State.setLocks_pc,
      State.setGateState_held, State.setGateState_pc, update_apply]
    split_ifs with hut
    · subst hut
      have hne : ∀ z : Option Stage, (z.map fun st => (o, st)) ≠ some (o', st) := by
        intro z hz
        obtain ⟨_, -, hz⟩ := Option.map_eq_some_iff.1 hz
        exact huo (Prod.ext rfl (congrArg Prod.fst hz).symm)
      rw [hold, hnew]
      simp only [hne]
    · rfl
  · simp [State.At, hheld, hnew]
  · simp only [State.goto_locks, State.setLocks_locks, State.setGateState_locks,
      update_apply]
    split_ifs with hpath
    · subst hpath
      exact hlocks p m (fun hpo => hp ⟨hpo, rfl⟩) hm
    · exact hm
  · simpa using hrec m hm

theorem goto_gate {x y : Option Stage} {g g' : GateState} {pc : Pc Obj}
    (h : Occupied sys s occ) (ho : (s.objs o).gate = true ∧ (s.objs o).destroyed = false)
    (hg : s.gateState sys o = some g)
    (hx : occ (sys.object o) (s.objs o).lockPath = x.map fun st => (t, o, st))
    (hxm : ∀ m, x ≠ some (.locked m)) (hold : (s.pc t).stage = x.map fun st => (o, st))
    (hnew : pc.stage = y.map fun st => (o, st)) (hym : ∀ m, y ≠ some (.locked m))
    (hgate : g'.gate = y.isSome) (hholders : g'.holders = y.elim 0 Stage.holders)
    (hrefs : g'.refs = g.refs) :
    ∃ occ, Occupied sys ((s.setGateState sys o g').goto t pc) occ := by
  have := h.goto ho hg hx hxm hold hnew hgate hholders hrefs (fun q m _ hm => hm)
    fun m hm => absurd hm (hym m)
  rwa [← State.setGateState_locks sys s o g', State.setLocks_self] at this

theorem goto_file {x y : Option Stage} {g : GateState} {pc : Pc Obj} {type : Option LockMode}
    {ok : Bool} (h : Occupied sys s occ)
    (ho : (s.objs o).gate = true ∧ (s.objs o).destroyed = false)
    (hg : s.gateState sys o = some g)
    (hx : occ (sys.object o) (s.objs o).lockPath = x.map fun st => (t, o, st))
    (hxm : ∀ m, x ≠ some (.locked m)) (hold : (s.pc t).stage = x.map fun st => (o, st))
    (hnew : pc.stage = y.map fun st => (o, st)) (hgate : g.gate = y.isSome)
    (hholders : g.holders = y.elim 0 Stage.holders)
    (hs : (s.setFileLock sys o type ok).map (fun s₁ => s₁.goto t pc) = some s')
    (hty : ∀ m, y = some (.locked m) → type = some m ∧ ok = true) :
    ∃ occ, Occupied sys s' occ := by
  obtain ⟨s₁, hs₁, rfl⟩ := Option.map_eq_some_iff.1 hs
  obtain ⟨l, rfl, hlocks, hrec⟩ := State.setFileLock_eq_some hs₁
  have := h.goto ho hg hx hxm hold hnew hgate hholders rfl hlocks
    fun m hm => hrec m (hty m hm).1 (hty m hm).2
  rwa [State.setGateState_self hg] at this

omit [DecidableEq Pid] in
/-- Entering or leaving a section of `o` changes nothing for the other occupants. -/
theorem at_setHeld {s₁ : State Thread Obj Pid} {z : Option LockMode} {pc : Pc Obj} {u : Thread}
    {o' : Obj} {st : Stage} (hheld : s₁.held = s.held) (hpc : s₁.pc = s.pc)
    (hold : ∀ a, (s.pc t).stage = some a → a.1 = o) (hnew : ∀ a, pc.stage = some a → a.1 = o)
    (huo : (u, o') ≠ (t, o)) :
    ((s₁.setHeld t o z).goto t pc).At u o' st ↔ s.At u o' st := by
  simp only [State.At, State.goto_held, State.goto_pc, State.setHeld_held, State.setHeld_pc,
    hheld, hpc, update_apply]
  split_ifs with hut
  · subst hut
    have hoo : o' ≠ o := fun hoo => huo (by rw [hoo])
    have hold' : (s.pc u).stage ≠ some (o', st) := fun he => hoo (hold _ he)
    have hnew' : pc.stage ≠ some (o', st) := fun he => hoo (hnew _ he)
    simp [hoo, hold', hnew']
  · rfl

theorem lock {m : LockMode} {g : GateState} {ok : Bool} {place : LockAt} (h : Occupied sys s occ)
    (hpc : s.pc t = .lock o m place)
    (ho : (s.objs o).gate = true ∧ (s.objs o).destroyed = false)
    (hg : s.gateState sys o = some g) (hok : place = .file → ok = true)
    (hs : s.lock sys t o m g ok place = some s') : ∃ occ, Occupied sys s' occ := by
  obtain ⟨hgate, hholders, -⟩ := h.gate _ _ g hg
  cases place with
  | gate =>
    simp only [State.lock] at hs
    split_ifs at hs with hlocked
    cases hs
    have hx : occ (sys.object o) (s.objs o).lockPath = none := by
      simpa [hlocked] using hgate
    rw [hx] at hholders
    exact h.goto_gate (x := none) (y := some .entered) ho hg hx (by simp) (by rw [hpc]; rfl) rfl
      (by simp) rfl hholders rfl
  | op =>
    simp only [State.lock] at hs
    split_ifs at hs
    cases hs
    have hst : (s.pc t).stage = some (o, .entered) := by rw [hpc]; rfl
    have hx := h.occ_eq (.inr hst)
    rw [hx] at hgate hholders
    exact h.goto_gate (x := some .entered) (y := some .entered) ho hg hx (by simp) hst rfl
      (by simp) hgate hholders rfl
  | count =>
    cases hs
    have hst : (s.pc t).stage = some (o, .entered) := by rw [hpc]; rfl
    have hx := h.occ_eq (.inr hst)
    rw [hx] at hgate hholders
    have hzero : g.holders = 0 := hholders
    exact h.goto_gate (x := some .entered) (y := some .counted) ho hg hx (by simp) hst
      (by rw [if_pos hzero]; rfl) (by simp) hgate (by simp [hzero, Stage.holders]) rfl
  | file =>
    have hst : (s.pc t).stage = some (o, .counted) := by rw [hpc]; rfl
    have hx := h.occ_eq (.inr hst)
    rw [hx] at hgate hholders
    refine h.goto_file (x := some .counted) (y := some (.locked m)) ho hg hx (by simp) hst rfl
      hgate hholders hs fun m' hm' => ?_
    cases hm'
    exact ⟨rfl, hok rfl⟩
  | opUnlock =>
    cases hs
    have hst : (s.pc t).stage = some (o, .locked m) := by rw [hpc]; rfl
    have hx := h.occ_eq (.inr hst)
    rw [hx] at hgate hholders
    refine h.move (x := some (.locked m)) (y := some (.locked m)) ho hg hx
      (fun u o' st huo => ?_) (fun st => ?_) rfl rfl hgate hholders rfl (fun p path m' _ hm => hm)
      fun m' hm => ?_
    · refine at_setHeld rfl rfl (fun a ha => ?_) (fun a ha => ?_) huo
      · rw [hst] at ha
        cases ha
        rfl
      · cases ha
    · simp [State.At, Pc.stage, eq_comm]
    · cases hm
      exact h.record _ _ _ _ _ hx

theorem unlock {g : GateState} {ok : Bool} {place : UnlockAt} (h : Occupied sys s occ)
    (hpc : s.pc t = .unlock o place)
    (ho : (s.objs o).gate = true ∧ (s.objs o).destroyed = false)
    (hg : s.gateState sys o = some g)
    (hs : s.unlock sys t o g ok place = some s') : ∃ occ, Occupied sys s' occ := by
  obtain ⟨hgate, hholders, -⟩ := h.gate _ _ g hg
  have hst : ∃ st, (s.pc t).stage = some (o, st) := by
    rw [hpc]
    cases place <;> exact ⟨_, rfl⟩
  obtain ⟨st, hst⟩ := hst
  have hx := h.occ_eq (.inr hst)
  rw [hx] at hgate hholders
  rw [hpc] at hst
  cases place with
  | op =>
    simp only [State.unlock] at hs
    split_ifs at hs
    cases hs
    cases hst
    exact h.goto_gate (x := some .leaving) (y := some .leaving) ho hg hx (by simp)
      (by rw [hpc]; rfl) rfl (by simp) hgate hholders rfl
  | count =>
    cases hs
    cases hst
    have hone : g.holders = 1 := hholders
    exact h.goto_gate (x := some .leaving) (y := some .left) ho hg hx (by simp)
      (by rw [hpc]; rfl) (by rw [if_pos (by omega)]; rfl) (by simp) hgate
      (by simp [hone, Stage.holders]) rfl
  | file =>
    cases hst
    exact h.goto_file (x := some .left) (y := some .left) ho hg hx (by simp) (by rw [hpc]; rfl) rfl
      hgate hholders hs (by simp)
  | opUnlock =>
    cases hs
    cases hst
    exact h.goto_gate (x := some .left) (y := some .left) ho hg hx (by simp) (by rw [hpc]; rfl) rfl
      (by simp) hgate hholders rfl
  | gate =>
    cases hs
    cases hst
    exact h.goto_gate (x := some .left) (y := none) ho hg hx (by simp) (by rw [hpc]; rfl) rfl
      (by simp) rfl hholders rfl

omit [DecidableEq Thread] [DecidableEq Obj] [DecidableEq Pid] in
theorem exists_gateState (h : Occupied sys s occ) (ho : (s.objs o).gate = true) :
    ∃ g, s.gateState sys o = some g := by
  obtain ⟨S, hS, hmem⟩ := h.refs (sys.object o) (s.objs o).lockPath
  have hpos : 0 < S.card := Finset.card_pos.2 ⟨o, (hmem o).2 ⟨rfl, ho, rfl⟩⟩
  refine Option.ne_none_iff_exists'.1 fun hnone => ?_
  have hnone : s.gates (sys.object o) (s.objs o).lockPath = none := hnone
  rw [hnone] at hS
  have hS : 0 = S.card := hS
  omega

theorem leave {m : LockMode} (h : Occupied sys s occ) (hpc : s.pc t = .idle)
    (hm : s.held t o = some m) :
    ∃ occ, Occupied sys ((s.setHeld t o none).goto t (.unlock o .op)) occ := by
  have hat : s.At t o (.locked m) := .inl ⟨m, hm, rfl⟩
  have ho := h.alive t o _ hat
  have hx := h.occ_eq hat
  obtain ⟨g, hg⟩ := h.exists_gateState ho.1
  obtain ⟨hgate, hholders, -⟩ := h.gate _ _ g hg
  rw [hx] at hgate hholders
  refine h.move (x := some (.locked m)) (y := some .leaving) (r := g) ho hg hx
    (fun u o' st huo => ?_) (fun st => ?_) rfl ?_ hgate hholders rfl (fun p path m' _ hm => hm)
    (by simp)
  · refine at_setHeld rfl rfl (fun a ha => ?_) (fun a ha => ?_) huo
    · rw [hpc] at ha
      cases ha
    · cases ha
      rfl
  · simp [State.At, Pc.stage]
  · rw [State.setGateState_self hg]
    rfl

/-! ### Objects come and go -/

omit [DecidableEq Obj] [DecidableEq Pid] in
theorem at_goto {s₁ : State Thread Obj Pid} {pc : Pc Obj} {u : Thread} {o' : Obj} {st : Stage}
    (hheld : s₁.held = s.held) (hpc : s₁.pc = s.pc) (hold : (s.pc t).stage = none)
    (hnew : pc.stage = none) : (s₁.goto t pc).At u o' st ↔ s.At u o' st := by
  simp only [State.At, State.goto_held, State.goto_pc, hheld, hpc, update_apply]
  split_ifs with hut
  · rw [hut, hold, hnew]
  · rfl

omit [DecidableEq Thread] [DecidableEq Obj] [DecidableEq Pid] in
/-- The occupants stay as they are, as long as their objects and the tables do. -/
theorem frame (h : Occupied sys s occ) (hat : ∀ u o st, s'.At u o st ↔ s.At u o st)
    (hobj : ∀ u o st, s.At u o st → s'.objs o = s.objs o)
    (hgate : ∀ p path g, s'.gates p path = some g →
      g.gate = (occ p path).isSome ∧ g.holders = holdersOf (occ p path) ∧ 0 < g.refs)
    (hrefs : ∀ p path, ∃ S : Finset Obj, refsOf (s'.gates p path) = S.card ∧
      ∀ o, o ∈ S ↔ sys.object o = p ∧ (s'.objs o).gate = true ∧ (s'.objs o).lockPath = path)
    (hrecord : ∀ p path u o m, s.At u o (.locked m) → sys.object o = p →
      (s.objs o).lockPath = path → (s.locks path).Holds p m → (s'.locks path).Holds p m) :
    Occupied sys s' occ where
  at_iff p path u o st := by
    rw [h.at_iff, hat]
    exact and_congr_right fun hu => by rw [hobj u o st hu]
  alive u o st hu := by
    have hu := (hat u o st).1 hu
    rw [hobj u o st hu]
    exact h.alive u o st hu
  gate := hgate
  refs := hrefs
  record p path u o m hm := by
    obtain ⟨hu, hp, hpath⟩ := (h.at_iff p path u o _).1 hm
    exact hrecord p path u o m hu hp hpath (h.record p path u o m hm)

omit [DecidableEq Thread] [DecidableEq Obj] [DecidableEq Pid] in
theorem occ_eq_none (h : Occupied sys s occ) {p : Pid} {path : Path}
    (hg : s.gates p path = none) : occ p path = none := by
  by_contra hne
  obtain ⟨⟨u, o, st⟩, hocc⟩ := Option.ne_none_iff_exists'.1 hne
  obtain ⟨hu, rfl, rfl⟩ := (h.at_iff p path u o st).1 hocc
  obtain ⟨g, hg'⟩ := h.exists_gateState (h.alive u o st hu).1
  exact absurd (hg'.symm.trans hg) (by simp)

omit [DecidableEq Obj] [DecidableEq Pid] in
theorem call {m : LockMode} (h : Occupied sys s occ) (hpc : s.pc t = .idle) :
    Occupied sys (s.goto t (.lock o m .gate)) occ :=
  h.frame (fun _ _ _ => at_goto rfl rfl (by rw [hpc]; rfl) rfl) (fun _ _ _ _ => rfl) h.gate h.refs
    fun _ _ _ _ _ _ _ _ hm => hm

omit [DecidableEq Pid] in
theorem init {key : Key} {opened : Bool} (h : Occupied sys s occ) (hpc : s.pc t = .idle)
    (hgate : (s.objs o).gate = false) :
    Occupied sys ((s.setObj o { s.objs o with fd := opened, lockPath := lockPath key }).goto t
      (if opened then .init o else .idle)) occ := by
  refine h.frame (fun _ _ _ => at_goto rfl rfl (by rw [hpc]; rfl) ?_) (fun u o' st hu => ?_) h.gate
    (fun p path => ?_) fun _ _ _ _ _ _ _ _ hm => hm
  · cases opened <;> rfl
  · have hne : o' ≠ o := by
      rintro rfl
      exact absurd (h.alive u o' st hu).1 (by simp [hgate])
    simp [update_of_ne hne]
  · obtain ⟨S, hS, hmem⟩ := h.refs p path
    refine ⟨S, hS, fun o' => ?_⟩
    simp only [State.goto_objs, State.setObj_objs, update_apply]
    split_ifs with ho
    · subst ho
      simp [hmem, hgate]
    · exact hmem o'

/-- **An unoccupied object gets its gate or gives it back**: its flag becomes `b`, and the entry of
its path in the table becomes `g'`. -/
theorem table {b : Bool} {r : Option GateState} {tb : GateTable} {pc : Pc Obj}
    (h : Occupied sys s occ) (hpc : (s.pc t).stage = none) (hpc' : pc.stage = none)
    (hfree : ∀ u st, ¬ s.At u o st)
    (htb : ∀ path, tb path =
      if path = (s.objs o).lockPath then r else s.gates (sys.object o) path)
    (hg' : ∀ g, r = some g → g.gate = (occ (sys.object o) (s.objs o).lockPath).isSome ∧
      g.holders = holdersOf (occ (sys.object o) (s.objs o).lockPath) ∧ 0 < g.refs)
    (hrefs : refsOf r + (s.objs o).gate.toNat =
      refsOf (s.gates (sys.object o) (s.objs o).lockPath) + b.toNat) :
    Occupied sys (((s.setObj o { s.objs o with gate := b }).setTable (sys.object o) tb).goto t pc)
      occ := by
  have hgates : ∀ p path, (update s.gates (sys.object o) tb) p path =
      if p = sys.object o ∧ path = (s.objs o).lockPath then r else s.gates p path := by
    intro p path
    rw [update_apply, ite_and]
    split_ifs with hp hpath
    · rw [htb, if_pos hpath]
    · rw [htb, if_neg hpath, hp]
    · rfl
  refine h.frame (fun _ _ _ => at_goto rfl rfl hpc hpc') (fun u o' st hu => ?_)
    (fun p path g hg => ?_) (fun p path => ?_) fun _ _ _ _ _ _ _ _ hm => hm
  · have hne : o' ≠ o := by
      rintro rfl
      exact hfree u st hu
    simp [update_of_ne hne]
  · rw [State.goto_gates, State.setTable_gates, State.setObj_gates, hgates] at hg
    split_ifs at hg with hp
    · obtain ⟨rfl, rfl⟩ := hp
      exact hg' g hg
    · exact h.gate p path g hg
  · obtain ⟨S, hS, hmem⟩ := h.refs p path
    simp only [State.goto_gates, State.setTable_gates, State.setObj_gates, hgates,
      State.goto_objs, State.setTable_objs, State.setObj_objs, update_apply]
    by_cases hp : p = sys.object o ∧ path = (s.objs o).lockPath
    · obtain ⟨rfl, rfl⟩ := hp
      -- The objects with the gate are those of before, with or without `o`.
      refine ⟨if b then insert o S else S.erase o, ?_, fun o' => ?_⟩
      · have ho : o ∈ S ↔ (s.objs o).gate = true := by simp [hmem]
        rw [hS] at hrefs
        rw [if_pos ⟨rfl, rfl⟩]
        cases hgate : (s.objs o).gate with
        | false =>
          have ho : o ∉ S := by simp [ho, hgate]
          cases b <;> simp_all [Finset.card_insert_of_notMem, Finset.erase_eq_of_notMem]
        | true =>
          have ho : o ∈ S := ho.2 hgate
          have hpos := Finset.card_pos.2 ⟨o, ho⟩
          cases b
          · simp_all [Finset.card_erase_of_mem]
            omega
          · simp_all [Finset.insert_eq_of_mem]
      · by_cases hoo : o' = o
        · subst hoo
          cases b <;> simp
        · cases b <;> simp [hoo, hmem]
    · refine ⟨S, by rw [if_neg hp, hS], fun o' => ?_⟩
      split_ifs with hoo
      · subst hoo
        rw [hmem]
        exact iff_of_false (fun hn => hp ⟨hn.1.symm, hn.2.2.symm⟩)
          fun hn => hp ⟨hn.1.symm, hn.2.2.symm⟩
      · exact hmem o'

theorem acquire (h : Occupied sys s occ) (hpc : s.pc t = .init o)
    (hgate : (s.objs o).gate = false) :
    Occupied sys (((s.setObj o { s.objs o with gate := true }).setTable (sys.object o)
      ((s.gates (sys.object o)).acquire (s.objs o).lockPath)).goto t .idle) occ := by
  have hfree : ∀ u st, ¬ s.At u o st := fun u st hu => by
    simpa [hgate] using (h.alive u o st hu).1
  refine h.table (by rw [hpc]; rfl) rfl hfree (fun _ => GateTable.acquire_apply)
    (fun g hg => ?_) ?_
  · cases hs : s.gates (sys.object o) (s.objs o).lockPath with
    | none =>
      simp only [hs] at hg
      cases hg
      simp [h.occ_eq_none hs, holdersOf]
    | some g₀ =>
      simp only [hs] at hg
      cases hg
      obtain ⟨h₁, h₂, -⟩ := h.gate _ _ g₀ hs
      exact ⟨h₁, h₂, Nat.succ_pos _⟩
  · cases s.gates (sys.object o) (s.objs o).lockPath <;> simp [refsOf, hgate]

theorem release (h : Occupied sys s occ) (hpc : s.pc t = .release o)
    (hd : (s.objs o).destroyed = true) :
    Occupied sys (((s.setObj o { s.objs o with gate := false }).setTable (sys.object o)
      (if (s.objs o).gate then (s.gates (sys.object o)).release (s.objs o).lockPath
        else s.gates (sys.object o))).goto t (.close o)) occ := by
  have hfree : ∀ u st, ¬ s.At u o st := fun u st hu => by
    simpa [hd] using (h.alive u o st hu).2
  cases hgate : (s.objs o).gate with
  | false =>
    refine h.table (by rw [hpc]; rfl) rfl hfree (r := s.gates (sys.object o) (s.objs o).lockPath)
      (fun path => ?_) (fun g hg => h.gate _ _ g hg) (by rw [hgate])
    rw [if_neg (by simp)]
    split_ifs with hpath
    · rw [hpath]
    · rfl
  | true =>
    obtain ⟨g, hg⟩ := h.exists_gateState hgate
    have hg : s.gates (sys.object o) (s.objs o).lockPath = some g := hg
    obtain ⟨h₁, h₂, hpos⟩ := h.gate _ _ g hg
    rw [if_pos rfl]
    refine h.table (by rw [hpc]; rfl) rfl hfree (fun _ => GateTable.release_apply hg)
      (fun g' hg' => ?_) ?_
    · split_ifs at hg' with hzero
      cases hg'
      exact ⟨h₁, h₂, Nat.pos_of_ne_zero hzero⟩
    · rw [hg, hgate]
      split_ifs with hzero
      · simp [refsOf]
        omega
      · simp [refsOf]
        omega

omit [DecidableEq Thread] [DecidableEq Obj] [DecidableEq Pid] in
theorem uses_of_at {st : Stage} (hat : s.At t o st) : s.Uses t o := by
  rcases hat with ⟨m, hm, -⟩ | hst
  · exact .inl (by simp [hm])
  · refine .inr ?_
    cases hpc : s.pc t with
    | idle | init | release | close => simp [hpc, Pc.stage] at hst
    | lock o' m place => cases place <;> simp_all [Pc.stage, Pc.obj]
    | unlock o' place => cases place <;> simp_all [Pc.stage, Pc.obj]

omit [DecidableEq Pid] in
theorem destroy (h : Occupied sys s occ) (hpc : s.pc t = .idle) (hfree : ∀ u, ¬ s.Uses u o) :
    Occupied sys ((s.setObj o { s.objs o with destroyed := true }).goto t (.release o)) occ := by
  refine h.frame (fun _ _ _ => at_goto rfl rfl (by rw [hpc]; rfl) rfl) (fun u o' st hu => ?_)
    h.gate (fun p path => ?_) fun _ _ _ _ _ _ _ _ hm => hm
  · have hne : o' ≠ o := by
      rintro rfl
      exact hfree u (uses_of_at hu)
    simp [update_of_ne hne]
  · obtain ⟨S, hS, hmem⟩ := h.refs p path
    refine ⟨S, hS, fun o' => ?_⟩
    simp only [State.goto_objs, State.setObj_objs, update_apply]
    split_ifs with hoo
    · subst hoo
      exact hmem o'
    · exact hmem o'

omit [DecidableEq Thread] [DecidableEq Obj] [DecidableEq Pid] in
theorem inside_of_at {m : LockMode} (hat : s.At t o (.locked m)) : s.Inside t o := by
  rcases hat with ⟨m', hm, -⟩ | hst
  · exact .inl (by simp [hm])
  · cases m
    · exact .inr (.inl hst)
    · exact .inr (.inr hst)

theorem close (h : Occupied sys s occ) (hpc : s.pc t = .close o)
    (hfree : (s.objs o).fd = true → ∀ u o', sys.object o' = sys.object o →
      (s.objs o').lockPath = (s.objs o).lockPath → ¬ s.Inside u o')
    (hobj : ∀ u st, ¬ s.At u o st) :
    Occupied sys (((s.setObj o { s.objs o with fd := false }).setLocks (s.objs o).lockPath
      (if (s.objs o).fd then (s.locks (s.objs o).lockPath).drop (sys.object o)
        else s.locks (s.objs o).lockPath)).goto t .idle) occ := by
  refine h.frame (fun _ _ _ => at_goto rfl rfl (by rw [hpc]; rfl) rfl) (fun u o' st hu => ?_)
    h.gate (fun p path => ?_) fun p path u o' m hu hp hpath hm => ?_
  · have hne : o' ≠ o := by
      rintro rfl
      exact hobj u st hu
    simp [update_of_ne hne]
  · obtain ⟨S, hS, hmem⟩ := h.refs p path
    refine ⟨S, hS, fun o' => ?_⟩
    simp only [State.goto_objs, State.setLocks_objs, State.setObj_objs, update_apply]
    split_ifs with hoo
    · subst hoo
      exact hmem o'
    · exact hmem o'
  · simp only [State.goto_locks, State.setLocks_locks, State.setObj_locks, update_apply]
    split_ifs with hpo hfd
    · -- The descriptor is of the file the occupant has locked, so it is in another process.
      subst hpo
      refine RecordLocks.holds_drop.2 ⟨hm, fun hpp => ?_⟩
      exact hfree hfd u o' (hp.trans hpp) hpath (inside_of_at hu)
    · exact hpo ▸ hm
    · exact hm

end Occupied

end Flock

end Swinx
