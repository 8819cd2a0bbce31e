import Mathlib.Logic.Function.Basic
import Mathlib.Data.List.Nodup
import Mathlib.Data.PNat.Basic
import Swinx.LTS.Basic

/-!
# Child processes

The handle of a process is an event named by the pid.  `CreateProcess` makes it after the fork and
sets it when the child has started; the drain thread, which `SIGCHLD` wakes through a pipe, reaps
the children that have exited, keeps their status by pid, and sets the event of the pid.

The kernel gives a fork any pid that is not in use; a pid is in use until its process is reaped.
An event exists as long as a handle of it is open, under the name of its pid.  The model begins
when `install_sigchld_handler` has succeeded.

* `Inv.woken` — the drain thread never sleeps while a child waits to be reaped.
* `sound_iff_announced` — a run is sound in all its states exactly if its steps are orderly.
-/

namespace Swinx

namespace Process

open Function (update update_of_ne update_self)

/-! ### Named events -/

/-- A manual-reset event with its open handles. -/
structure NamedEvent (η : Type*) where
  signalled : Bool
  handles : List η

namespace NamedEvent

variable {η : Type*}

/-- `CreateEventA(NULL, TRUE, FALSE, name)`: the event of the name, or a new one. -/
def create (h : η) : Option (NamedEvent η) → NamedEvent η
  | some e => { e with handles := h :: e.handles }
  | none => ⟨false, [h]⟩

/-- `SetEvent` -/
def set (e : NamedEvent η) : NamedEvent η := { e with signalled := true }

/-- `CloseHandle`: the last handle takes the event with it. -/
def close [DecidableEq η] (h : η) (e : NamedEvent η) : Option (NamedEvent η) :=
  if e.handles.erase h = [] then none else some { e with handles := e.handles.erase h }

theorem mem_create (h : η) (e : Option (NamedEvent η)) : h ∈ (create h e).handles := by
  cases e <;> simp [create]

/-- The handle `g` and the signal are not lost from one event to the other. -/
def Keeps (g : η) (x y : Option (NamedEvent η)) : Prop :=
  ∀ e, x = some e → g ∈ e.handles →
    ∃ e', y = some e' ∧ g ∈ e'.handles ∧ (e.signalled = true → e'.signalled = true)

theorem keeps_create (g h : η) (x : Option (NamedEvent η)) : Keeps g x (some (create h x)) := by
  rintro e rfl hg
  exact ⟨_, rfl, List.mem_cons_of_mem h hg, id⟩

theorem keeps_set (g : η) (x : Option (NamedEvent η)) : Keeps g x (x.map set) := by
  rintro e rfl hg
  exact ⟨_, rfl, hg, fun _ => rfl⟩

theorem keeps_close [DecidableEq η] {g h : η} (hne : g ≠ h) (x : Option (NamedEvent η)) :
    Keeps g x (x.bind (close h)) := by
  rintro e rfl hg
  have hmem : g ∈ e.handles.erase h := (List.mem_erase_of_ne hne).2 hg
  refine ⟨{ e with handles := e.handles.erase h }, ?_, hmem, id⟩
  rw [Option.bind_some, close, if_neg (List.ne_nil_of_mem hmem)]

end NamedEvent

/-- A status of `waitpid`. -/
inductive WaitStatus
  | exited (code : ℕ)
  | signaled (signo : ℕ)
  deriving DecidableEq, Repr

/-- The exit code that `getExitCode` makes of a status, as a `DWORD`. -/
def WaitStatus.exitCode : WaitStatus → ℕ
  | .exited code => code % 256
  | .signaled _ => 0xFFFFFFFF

/-- Where a child is. -/
inductive Child
  | none
  | running
  /-- It has exited and was not waited for. -/
  | zombie (status : WaitStatus)
  /-- `waitpid` has returned it. -/
  | reaped (status : WaitStatus)
  /-- `setPidCode` has been called for it. -/
  | recorded (status : WaitStatus)
  deriving DecidableEq, Repr

/-- The status of a child that has exited. -/
def Child.status : Child → Option WaitStatus
  | .none | .running => Option.none
  | .zombie status | .reaped status | .recorded status => some status

/-- Where the parent is with a child. -/
inductive Parent
  | none
  /-- In `CreateProcessAsUserA`, after `fork`. -/
  | forked
  /-- It has called `CreateEventA`, and waits for the result of `execve`. -/
  | created
  /-- It has returned `hProcess`, which is open. -/
  | returned
  | closed
  | failed
  deriving DecidableEq, Repr

/-- Where `sigchld_drain_thread` is. -/
inductive Drain (ι : Type*)
  /-- In `read`. -/
  | read
  /-- Before `waitpid`. -/
  | loop
  /-- `waitpid` has returned the child. -/
  | reaped (c : ι)
  /-- After `setPidCode` of the pid. -/
  | recorded (pid : ℕ)
  /-- After `CreateEventA`. -/
  | opened (pid : ℕ)
  /-- After `SetEvent`. -/
  | signalled (pid : ℕ)
  deriving DecidableEq, Repr

/-- Whose handle it is. -/
inductive Holder (ι : Type*)
  | parent (c : ι)
  | drain
  deriving DecidableEq, Repr

/-- An entry of `m_child_status`, and the child that it is of. -/
structure Entry (ι : Type*) where
  child : ι
  status : WaitStatus
  deriving DecidableEq, Repr

/-- The children, their parent and the kernel. -/
structure State (ι : Type*) where
  /-- The processes by their pids. -/
  procs : ℕ → Option ι
  pid : ι → ℕ
  child : ι → Child
  zombies : List ι
  /-- `SIGCHLD` is pending. -/
  pending : Bool
  /-- The bytes in `s_sigchld_pipe`. -/
  pipe : ℕ
  drain : Drain ι
  m_child_status : ℕ → Option (Entry ι)
  /-- The events of the name `PROC_EVENT_FMT`. -/
  event : ℕ → Option (NamedEvent (Holder ι))
  parent : ι → Parent

/-- The steps. -/
inductive Act (ι : Type*)
  | fork (c : ι) (pid : ℕ)
  | createEvent (c : ι)
  | createFails (c : ι)
  /-- The child reports that `execve` has failed. -/
  | execFailed (c : ι)
  /-- `SetEvent(hProcess)`, and the call returns. -/
  | started (c : ι)
  | closeHandle (c : ι)
  | exit (c : ι) (status : WaitStatus)
  /-- `sigchld_handler` -/
  | handler
  | drainRead
  | waitpid (c : ι)
  /-- `waitpid` finds no child that has exited. -/
  | waitpidNone
  | setPidCode
  | drainCreate
  | drainSet
  | drainClose
  deriving DecidableEq, Repr

variable {ι : Type*}

/-- No child, and the drain thread reads. -/
def init : State ι where
  procs _ := none
  pid _ := 0
  child _ := .none
  zombies := []
  pending := false
  pipe := 0
  drain := .read
  m_child_status _ := none
  event _ := none
  parent _ := .none

section Step

variable [DecidableEq ι] (capacity : ℕ+)

/-- One step. -/
def next (s : State ι) : Act ι → Option (State ι)
  | .fork c pid =>
    if s.child c = .none ∧ pid ≠ 0 ∧ s.procs pid = none then
      some { s with
        procs := update s.procs pid (some c)
        pid := update s.pid c pid
        child := update s.child c .running
        parent := update s.parent c .forked }
    else none
  | .createEvent c =>
    if s.parent c = .forked then
      some { s with
        event := update s.event (s.pid c)
          (some (NamedEvent.create (.parent c) (s.event (s.pid c))))
        parent := update s.parent c .created }
    else none
  | .createFails c =>
    if s.parent c = .forked then some { s with parent := update s.parent c .failed }
    else none
  | .execFailed c =>
    if s.parent c = .created then
      some { s with
        event := update s.event (s.pid c)
          ((s.event (s.pid c)).bind (NamedEvent.close (.parent c)))
        parent := update s.parent c .failed }
    else none
  | .started c =>
    if s.parent c = .created then
      some { s with
        event := update s.event (s.pid c) ((s.event (s.pid c)).map NamedEvent.set)
        parent := update s.parent c .returned }
    else none
  | .closeHandle c =>
    if s.parent c = .returned then
      some { s with
        event := update s.event (s.pid c)
          ((s.event (s.pid c)).bind (NamedEvent.close (.parent c)))
        parent := update s.parent c .closed }
    else none
  | .exit c status =>
    if s.child c = .running then
      some { s with
        child := update s.child c (.zombie status)
        zombies := s.zombies ++ [c]
        pending := true }
    else none
  | .handler =>
    if s.pending then
      -- A full pipe takes no more bytes.
      some { s with pending := false, pipe := if s.pipe < capacity then s.pipe + 1 else s.pipe }
    else none
  | .drainRead =>
    if s.drain = .read ∧ 0 < s.pipe then some { s with pipe := s.pipe - 1, drain := .loop }
    else none
  | .waitpid c =>
    match s.child c with
    | .zombie status =>
      if s.drain = .loop then
        some { s with
          procs := update s.procs (s.pid c) none
          child := update s.child c (.reaped status)
          zombies := s.zombies.erase c
          drain := .reaped c }
      else none
    | _ => none
  | .waitpidNone =>
    if s.drain = .loop ∧ s.zombies = [] then some { s with drain := .read } else none
  | .setPidCode =>
    match s.drain with
    | .reaped c =>
      match s.child c with
      | .reaped status =>
        some { s with
          child := update s.child c (.recorded status)
          m_child_status := update s.m_child_status (s.pid c) (some ⟨c, status⟩)
          drain := .recorded (s.pid c) }
      | _ => none
    | _ => none
  | .drainCreate =>
    match s.drain with
    | .recorded pid =>
      some { s with
        event := update s.event pid (some (NamedEvent.create .drain (s.event pid)))
        drain := .opened pid }
    | _ => none
  | .drainSet =>
    match s.drain with
    | .opened pid =>
      some { s with
        event := update s.event pid ((s.event pid).map NamedEvent.set)
        drain := .signalled pid }
    | _ => none
  | .drainClose =>
    match s.drain with
    | .signalled pid =>
      some { s with
        event := update s.event pid ((s.event pid).bind (NamedEvent.close .drain))
        drain := .loop }
    | _ => none

/-- The processes as a transition system. -/
def lts : LTS (State ι) (Act ι) := ⟨next capacity⟩

end Step

/-- `WaitForSingleObject(hProcess, 0)` succeeds. -/
def WaitForSingleObject (s : State ι) (c : ι) : Bool :=
  (s.event (s.pid c)).any (·.signalled)

/-- `GetExitCodeProcess`: the pid is read from the name of the event. -/
def GetExitCodeProcess (s : State ι) (c : ι) : Option ℕ :=
  if s.pid c = 0 then none else (s.m_child_status (s.pid c)).map (·.status.exitCode)

/-- The entry under the pid of the child is its own. -/
def State.Own (s : State ι) (c : ι) : Prop :=
  (s.m_child_status (s.pid c)).map (·.child) = some c

/-- **The handles are signalled exactly on exit.** -/
structure Sound (s : State ι) : Prop where
  /-- A wait succeeds only after the exit, and then there is the exit code, of this child. -/
  waited : ∀ c, s.parent c = .returned → WaitForSingleObject s c = true →
    ∃ status, (s.child c).status = some status ∧
      GetExitCodeProcess s c = some status.exitCode ∧ s.Own c
  /-- If the drain thread has nothing left to read, every exit is recorded and signalled. -/
  drained : s.drain = .read → s.pipe = 0 → s.pending = false → ∀ c status,
    (s.child c).status = some status → s.child c = .recorded status ∧
      (s.parent c = .returned → WaitForSingleObject s c = true)

/-- **The good steps.** -/
def Orderly (s : State ι) : Act ι → Prop
  /- The start is announced when the exit is recorded. -/
  | .started c => s.Own c
  /- No handle is open of an earlier child with the pid. -/
  | .setPidCode => ∀ c, s.drain = .reaped c → ∀ c', s.parent c' = .returned → s.pid c' ≠ s.pid c
  | _ => True

/-- What is known in an orderly run. -/
structure Inv (s : State ι) : Prop where
  zombie : ∀ c, c ∈ s.zombies ↔ ∃ status, s.child c = .zombie status
  nodup : s.zombies.Nodup
  reaped : ∀ c, (∃ status, s.child c = .reaped status) ↔ s.drain = .reaped c
  /-- The drain thread does not sleep while a child waits to be reaped. -/
  woken : s.zombies ≠ [] → s.pending = true ∨ 0 < s.pipe ∨ s.drain ≠ .read
  /-- The handle of the parent keeps the event, which is set when it is returned. -/
  held : ∀ c, s.parent c = .created ∨ s.parent c = .returned → ∃ e,
    s.event (s.pid c) = some e ∧ .parent c ∈ e.handles ∧
      (s.parent c = .returned → e.signalled = true)
  returned : ∀ c, s.parent c = .returned →
    ∃ status, s.child c = .recorded status ∧ s.m_child_status (s.pid c) = some ⟨c, status⟩
  /-- An entry is that of a child that has exited. -/
  entry : ∀ pid e, s.m_child_status pid = some e →
    s.child e.child = .recorded e.status ∧ s.pid e.child = pid
  born : ∀ c, s.child c = .none → s.parent c = .none
  pid_ne : ∀ c, s.child c ≠ .none → s.pid c ≠ 0

theorem inv_init : Inv (init : State ι) := by
  constructor <;> simp [init]

namespace Inv

variable {s s' : State ι}

theorem alive (hI : Inv s) {c : ι} (h : s.parent c ≠ .none) : s.child c ≠ .none := fun hc =>
  h (hI.born c hc)

theorem sound (hI : Inv s) : Sound s := by
  have hset : ∀ c, s.parent c = .returned → WaitForSingleObject s c = true := fun c hc => by
    obtain ⟨e, he, -, hsig⟩ := hI.held c (Or.inr hc)
    rw [WaitForSingleObject, he, Option.any_some]
    exact hsig hc
  refine ⟨fun c hc _ => ?_, fun hread hpipe hpend c status hstatus => ⟨?_, hset c⟩⟩
  · obtain ⟨status, hchild, hentry⟩ := hI.returned c hc
    have hpid := hI.pid_ne c (by simp [hchild])
    refine ⟨status, by rw [hchild]; rfl, ?_, ?_⟩
    · rw [GetExitCodeProcess, if_neg hpid, hentry]
      rfl
    · rw [State.Own, hentry]
      rfl
  · cases hchild : s.child c with
    | none => simp [hchild, Child.status] at hstatus
    | running => simp [hchild, Child.status] at hstatus
    | zombie st =>
      have hmem := (hI.zombie c).2 ⟨st, hchild⟩
      have := hI.woken (List.ne_nil_of_mem hmem)
      simp [hread, hpipe, hpend] at this
    | reaped st =>
      have := (hI.reaped c).1 ⟨st, hchild⟩
      rw [hread] at this
      cases this
    | recorded st =>
      rw [hchild] at hstatus
      exact congrArg _ (Option.some.inj hstatus)

theorem setEvent (hI : Inv s) {p : ℕ} {x : Option (NamedEvent (Holder ι))}
    (hkeep : ∀ c, s.parent c = .created ∨ s.parent c = .returned →
      NamedEvent.Keeps (.parent c) (s.event p) x) :
    Inv { s with event := update s.event p x } := by
  refine { hI with held := fun c hc => ?_ }
  obtain ⟨e, he, hmem, hsig⟩ := hI.held c hc
  by_cases hp : s.pid c = p
  · subst hp
    obtain ⟨e', rfl, hmem', hsig'⟩ := hkeep c hc e he hmem
    exact ⟨e', by simp, hmem', fun h => hsig' (hsig h)⟩
  · exact ⟨e, by simpa [hp] using he, hmem, hsig⟩

/-- The drain thread goes on to a place that is neither `read` nor after `waitpid`. -/
theorem goOn (hI : Inv s) {d : Drain ι} (hread : d ≠ .read)
    (hreaped : ∀ c, d ≠ .reaped c ∧ s.drain ≠ .reaped c) : Inv { s with drain := d } := by
  refine { hI with
    reaped := fun c => ?_
    woken := fun _ => Or.inr (Or.inr hread) }
  have := hI.reaped c
  simp only [(hreaped c).2, iff_false] at this
  simp [this, (hreaped c).1]

variable [DecidableEq ι]

/-- The handle of the child `c` is closed, or was never there. -/
theorem drop (hI : Inv s) {c : ι} {stage : Parent} (hborn : s.parent c ≠ .none)
    (hcreated : stage ≠ .created) (hreturned : stage ≠ .returned) :
    Inv { s with parent := update s.parent c stage } := by
  have hother : ∀ c' st, update s.parent c stage c' = st → st ≠ stage →
      s.parent c' = st := fun c' st h hne => by
    by_cases hc : c' = c
    · subst hc
      simp only [update_self] at h
      exact absurd h.symm hne
    · simpa [hc] using h
  refine { hI with
    held := fun c' hc' => ?_
    returned := fun c' hc' => hI.returned c' (hother c' _ hc' hreturned.symm)
    born := fun c' hc' => ?_ }
  · have hpar : s.parent c' = .created ∨ s.parent c' = .returned :=
      hc'.imp (hother c' _ · hcreated.symm) (hother c' _ · hreturned.symm)
    obtain ⟨e, he, hmem, hsig⟩ := hI.held c' hpar
    exact ⟨e, he, hmem, fun h => hsig (hother c' _ h hreturned.symm)⟩
  · have hne : c' ≠ c := fun hcc => hI.alive hborn (hcc ▸ hc')
    simpa [hne] using hI.born c' hc'

theorem closeHandle (hI : Inv s) {c : ι} {stage : Parent} (hborn : s.parent c ≠ .none)
    (hcreated : stage ≠ .created) (hreturned : stage ≠ .returned) :
    Inv { s with
      event := update s.event (s.pid c)
        ((s.event (s.pid c)).bind (NamedEvent.close (.parent c)))
      parent := update s.parent c stage } := by
  refine (hI.drop hborn hcreated hreturned).setEvent fun c' hc' => ?_
  refine NamedEvent.keeps_close (fun h => ?_) _
  obtain rfl := Holder.parent.inj h
  simp only [update_self] at hc'
  exact hc'.elim hcreated hreturned

theorem fork (hI : Inv s) {c : ι} {pid : ℕ} (hchild : s.child c = .none) (hpid : pid ≠ 0) :
    Inv { s with
      procs := update s.procs pid (some c)
      pid := update s.pid c pid
      child := update s.child c .running
      parent := update s.parent c .forked } := by
  have hpar := hI.born c hchild
  have hcases : ∀ c', c' = c ∨ (c' ≠ c ∧ update s.child c .running c' = s.child c' ∧
      update s.parent c .forked c' = s.parent c' ∧
      update s.pid c pid c' = s.pid c') := fun c' => by
    by_cases h : c' = c
    · exact Or.inl h
    · exact Or.inr ⟨h, by simp [h], by simp [h], by simp [h]⟩
  refine { hI with
    zombie := fun c' => ?_
    reaped := fun c' => ?_
    held := fun c' hc' => ?_
    returned := fun c' hc' => ?_
    entry := fun p e hpe => ?_
    born := fun c' hc' => ?_
    pid_ne := fun c' hc' => ?_ }
  · rcases hcases c' with rfl | ⟨-, hc, -⟩
    · simp [hI.zombie, hchild]
    · simp only [hc]
      exact hI.zombie c'
  · rcases hcases c' with rfl | ⟨-, hc, -⟩
    · simp [← hI.reaped, hchild]
    · simp only [hc]
      exact hI.reaped c'
  · rcases hcases c' with rfl | ⟨-, -, hp, hq⟩
    · simp at hc'
    · simp only [hp, hq] at hc' ⊢
      exact hI.held c' hc'
  · rcases hcases c' with rfl | ⟨-, hc, hp, hq⟩
    · simp at hc'
    · simp only [hc, hp, hq] at hc' ⊢
      exact hI.returned c' hc'
  · have he := hI.entry p e hpe
    have hne : e.child ≠ c := by intro h; rw [h, hchild] at he; cases he.1
    simpa [hne] using he
  · rcases hcases c' with rfl | ⟨-, hc, hp, -⟩
    · simp at hc'
    · simp only [hc, hp] at hc' ⊢
      exact hI.born c' hc'
  · rcases hcases c' with rfl | ⟨-, hc, -, hq⟩
    · simpa using hpid
    · simp only [hc, hq] at hc' ⊢
      exact hI.pid_ne c' hc'

theorem exit (hI : Inv s) {c : ι} {status : WaitStatus} (hchild : s.child c = .running) :
    Inv { s with
      child := update s.child c (.zombie status)
      zombies := s.zombies ++ [c]
      pending := true } := by
  have hnot : c ∉ s.zombies := fun h => by
    obtain ⟨st, hst⟩ := (hI.zombie c).1 h
    rw [hchild] at hst
    cases hst
  have hdrain : s.drain ≠ .reaped c := fun h => by
    obtain ⟨st, hst⟩ := (hI.reaped c).2 h
    rw [hchild] at hst
    cases hst
  refine { hI with
    zombie := fun c' => ?_
    nodup := ?_
    reaped := fun c' => ?_
    woken := fun _ => Or.inl rfl
    returned := fun c' hc' => ?_
    entry := fun p e hpe => ?_
    born := fun c' hc' => ?_
    pid_ne := fun c' hc' => ?_ }
  · by_cases h : c' = c
    · subst h; simp
    · simp [h, hI.zombie]
  · exact List.nodup_append.2 ⟨hI.nodup, List.nodup_singleton c, fun a ha b hb => by
      rw [List.mem_singleton.1 hb]
      rintro rfl
      exact hnot ha⟩
  · by_cases h : c' = c
    · subst h; simp [hdrain]
    · simp [h, hI.reaped]
  · obtain ⟨st, hst, hentry⟩ := hI.returned c' hc'
    have hne : c' ≠ c := by rintro rfl; rw [hchild] at hst; cases hst
    exact ⟨st, by simpa [hne] using hst, hentry⟩
  · have he := hI.entry p e hpe
    have hne : e.child ≠ c := by intro h; rw [h, hchild] at he; cases he.1
    simpa [hne] using he
  · by_cases h : c' = c
    · subst h; simp at hc'
    · exact hI.born c' (by simpa [h] using hc')
  · by_cases h : c' = c
    · subst h; exact hI.pid_ne c' (by simp [hchild])
    · exact hI.pid_ne c' (by simpa [h] using hc')

theorem waitpid (hI : Inv s) {c : ι} {status : WaitStatus} (hchild : s.child c = .zombie status)
    (hdrain : s.drain = .loop) :
    Inv { s with
      procs := update s.procs (s.pid c) none
      child := update s.child c (.reaped status)
      zombies := s.zombies.erase c
      drain := .reaped c } := by
  refine { hI with
    zombie := fun c' => ?_
    nodup := hI.nodup.erase c
    reaped := fun c' => ?_
    woken := fun _ => Or.inr (Or.inr (by simp))
    returned := fun c' hc' => ?_
    entry := fun p e hpe => ?_
    born := fun c' hc' => ?_
    pid_ne := fun c' hc' => ?_ }
  · by_cases h : c' = c
    · subst h
      simp [hI.nodup.mem_erase_iff]
    · simp [h, hI.nodup.mem_erase_iff, hI.zombie]
  · by_cases h : c' = c
    · subst h; simp
    · have := hI.reaped c'
      simp only [hdrain, reduceCtorEq, iff_false] at this
      simp only [update_of_ne h, this, Drain.reaped.injEq, false_iff]
      exact fun hc => h hc.symm
  · obtain ⟨st, hst, hentry⟩ := hI.returned c' hc'
    have hne : c' ≠ c := by rintro rfl; rw [hchild] at hst; cases hst
    exact ⟨st, by simpa [hne] using hst, hentry⟩
  · have he := hI.entry p e hpe
    have hne : e.child ≠ c := by intro h; rw [h, hchild] at he; cases he.1
    simpa [hne] using he
  · by_cases h : c' = c
    · subst h; simp at hc'
    · exact hI.born c' (by simpa [h] using hc')
  · by_cases h : c' = c
    · subst h; exact hI.pid_ne c' (by simp [hchild])
    · exact hI.pid_ne c' (by simpa [h] using hc')

theorem setPidCode (hI : Inv s) {c : ι} {status : WaitStatus} (hdrain : s.drain = .reaped c)
    (hchild : s.child c = .reaped status)
    (hgood : ∀ c', s.parent c' = .returned → s.pid c' ≠ s.pid c) :
    Inv { s with
      child := update s.child c (.recorded status)
      m_child_status := update s.m_child_status (s.pid c) (some ⟨c, status⟩)
      drain := .recorded (s.pid c) } := by
  refine { hI with
    zombie := fun c' => ?_
    reaped := fun c' => ?_
    woken := fun _ => Or.inr (Or.inr (by simp))
    returned := fun c' hc' => ?_
    entry := fun p e hpe => ?_
    born := fun c' hc' => ?_
    pid_ne := fun c' hc' => ?_ }
  · by_cases h : c' = c
    · subst h; simp [hI.zombie, hchild]
    · simp [h, hI.zombie]
  · by_cases h : c' = c
    · subst h; simp
    · have := hI.reaped c'
      simp only [hdrain, Drain.reaped.injEq, Ne.symm h, iff_false] at this
      simp [update_of_ne h, this]
  · obtain ⟨st, hst, hentry⟩ := hI.returned c' hc'
    have hne : c' ≠ c := by rintro rfl; rw [hchild] at hst; cases hst
    exact ⟨st, by simpa [hne] using hst, by simpa [hgood c' hc'] using hentry⟩
  · by_cases hp : p = s.pid c
    · subst hp
      simp only [update_self, Option.some.injEq] at hpe
      subst hpe
      simp
    · have he := hI.entry p e (by simpa [hp] using hpe)
      have hne : e.child ≠ c := by intro h; rw [h, hchild] at he; cases he.1
      simpa [hne] using he
  · by_cases h : c' = c
    · subst h; simp at hc'
    · exact hI.born c' (by simpa [h] using hc')
  · by_cases h : c' = c
    · subst h; exact hI.pid_ne c' (by simp [hchild])
    · exact hI.pid_ne c' (by simpa [h] using hc')

theorem createEvent (hI : Inv s) {c : ι} (hforked : s.parent c = .forked) :
    Inv { s with
      event := update s.event (s.pid c)
        (some (NamedEvent.create (.parent c) (s.event (s.pid c))))
      parent := update s.parent c .created } := by
  refine { hI with
    held := fun c' hc' => ?_
    returned := fun c' hc' => ?_
    born := fun c' hc' => ?_ }
  · by_cases h : c' = c
    · subst h
      exact ⟨NamedEvent.create (.parent c') (s.event (s.pid c')), by simp,
        NamedEvent.mem_create _ _, by simp⟩
    · simp only [update_of_ne h] at hc' ⊢
      exact (hI.setEvent fun _ _ => NamedEvent.keeps_create _ _ _).held c' hc'
  · by_cases h : c' = c
    · subst h; simp at hc'
    · exact hI.returned c' (by simpa [h] using hc')
  · have hne : c' ≠ c := by rintro rfl; exact hI.alive (by simp [hforked]) hc'
    simpa [hne] using hI.born c' hc'

theorem started (hI : Inv s) {c : ι} (hcreated : s.parent c = .created) (hgood : s.Own c) :
    Inv { s with
      event := update s.event (s.pid c) ((s.event (s.pid c)).map NamedEvent.set)
      parent := update s.parent c .returned } := by
  refine { hI with
    held := fun c' hc' => ?_
    returned := fun c' hc' => ?_
    born := fun c' hc' => ?_ }
  · by_cases h : c' = c
    · subst h
      obtain ⟨e, he, hmem, -⟩ := hI.held c' (Or.inl hcreated)
      exact ⟨e.set, by simp [he], hmem, fun _ => rfl⟩
    · simp only [update_of_ne h] at hc' ⊢
      exact (hI.setEvent fun _ _ => NamedEvent.keeps_set _ _).held c' hc'
  · by_cases h : c' = c
    · subst h
      obtain ⟨e, he, rfl⟩ := Option.map_eq_some_iff.1 hgood
      exact ⟨e.status, (hI.entry _ e he).1, he⟩
    · exact hI.returned c' (by simpa [h] using hc')
  · have hne : c' ≠ c := by rintro rfl; exact hI.alive (by simp [hcreated]) hc'
    simpa [hne] using hI.born c' hc'

variable {capacity : ℕ+}

theorem next (hI : Inv s) {act : Act ι} (hgood : Orderly s act)
    (hn : Process.next capacity s act = some s') : Inv s' := by
  cases act with
  | fork c pid =>
    simp only [Process.next, Option.ite_none_right_eq_some, Option.some.injEq] at hn
    obtain ⟨⟨hchild, hpid, -⟩, rfl⟩ := hn
    exact hI.fork hchild hpid
  | createEvent c =>
    simp only [Process.next, Option.ite_none_right_eq_some, Option.some.injEq] at hn
    obtain ⟨hforked, rfl⟩ := hn
    exact hI.createEvent hforked
  | createFails c =>
    simp only [Process.next, Option.ite_none_right_eq_some, Option.some.injEq] at hn
    obtain ⟨hforked, rfl⟩ := hn
    exact hI.drop (by simp [hforked]) (by simp) (by simp)
  | execFailed c =>
    simp only [Process.next, Option.ite_none_right_eq_some, Option.some.injEq] at hn
    obtain ⟨hcreated, rfl⟩ := hn
    exact hI.closeHandle (by simp [hcreated]) (by simp) (by simp)
  | started c =>
    simp only [Process.next, Option.ite_none_right_eq_some, Option.some.injEq] at hn
    obtain ⟨hcreated, rfl⟩ := hn
    exact hI.started hcreated hgood
  | closeHandle c =>
    simp only [Process.next, Option.ite_none_right_eq_some, Option.some.injEq] at hn
    obtain ⟨hreturned, rfl⟩ := hn
    exact hI.closeHandle (by simp [hreturned]) (by simp) (by simp)
  | exit c status =>
    simp only [Process.next, Option.ite_none_right_eq_some, Option.some.injEq] at hn
    obtain ⟨hrunning, rfl⟩ := hn
    exact hI.exit hrunning
  | handler =>
    simp only [Process.next, Option.ite_none_right_eq_some, Option.some.injEq] at hn
    obtain ⟨-, rfl⟩ := hn
    refine { hI with woken := fun _ => Or.inr (Or.inl ?_) }
    show 0 < if s.pipe < capacity then s.pipe + 1 else s.pipe
    have := capacity.pos
    split_ifs <;> omega
  | drainRead =>
    simp only [Process.next, Option.ite_none_right_eq_some, Option.some.injEq] at hn
    obtain ⟨⟨hread, -⟩, rfl⟩ := hn
    exact { hI.goOn (d := .loop) (by simp) fun c => by simp [hread] with
      woken := fun _ => Or.inr (Or.inr (by simp)) }
  | waitpid c =>
    simp only [Process.next] at hn
    split at hn
    · next status hchild =>
      simp only [Option.ite_none_right_eq_some, Option.some.injEq] at hn
      obtain ⟨hdrain, rfl⟩ := hn
      exact hI.waitpid hchild hdrain
    · cases hn
  | waitpidNone =>
    simp only [Process.next, Option.ite_none_right_eq_some, Option.some.injEq] at hn
    obtain ⟨⟨hdrain, hempty⟩, rfl⟩ := hn
    refine { hI with
      reaped := fun c => ?_
      woken := fun h => absurd hempty h }
    have := hI.reaped c
    simp only [hdrain, reduceCtorEq, iff_false] at this
    simp [this]
  | setPidCode =>
    simp only [Process.next] at hn
    split at hn
    · next c hdrain =>
      split at hn
      · next status hchild =>
        obtain rfl := Option.some.inj hn
        exact hI.setPidCode hdrain hchild (hgood c hdrain)
      · cases hn
    · cases hn
  | drainCreate =>
    simp only [Process.next] at hn
    split at hn
    · next pid hdrain =>
      obtain rfl := Option.some.inj hn
      exact (hI.setEvent fun _ _ => NamedEvent.keeps_create _ _ _).goOn (by simp)
        fun c => by simp [hdrain]
    · cases hn
  | drainSet =>
    simp only [Process.next] at hn
    split at hn
    · next pid hdrain =>
      obtain rfl := Option.some.inj hn
      exact (hI.setEvent fun _ _ => NamedEvent.keeps_set _ _).goOn (by simp)
        fun c => by simp [hdrain]
    · cases hn
  | drainClose =>
    simp only [Process.next] at hn
    split at hn
    · next pid hdrain =>
      obtain rfl := Option.some.inj hn
      exact (hI.setEvent fun _ _ => NamedEvent.keeps_close (by simp) _).goOn (by simp)
        fun c => by simp [hdrain]
    · cases hn

theorem orderly_of_sound (hI : Inv s) {act : Act ι}
    (hn : Process.next capacity s act = some s') (hs : Sound s') : Orderly s act := by
  cases act with
  | started c =>
    simp only [Process.next, Option.ite_none_right_eq_some, Option.some.injEq] at hn
    obtain ⟨hcreated, rfl⟩ := hn
    obtain ⟨e, he, -⟩ := hI.held c (Or.inl hcreated)
    obtain ⟨-, -, -, hown⟩ :=
      hs.waited c (by simp) (by simp [WaitForSingleObject, he, NamedEvent.set])
    exact hown
  | setPidCode =>
    intro c hdrain c' hreturned hpid
    simp only [Process.next, hdrain] at hn
    split at hn
    · next status hchild =>
      obtain rfl := Option.some.inj hn
      obtain ⟨e, he, -, hsig⟩ := hI.held c' (Or.inr hreturned)
      obtain ⟨-, -, -, hown⟩ := hs.waited c' hreturned (by
        simpa [WaitForSingleObject, he] using hsig hreturned)
      -- the entry under the pid is that of `c`, whose status is only recorded now
      simp only [State.Own, hpid, update_self, Option.map_some, Option.some.injEq] at hown
      subst hown
      obtain ⟨st, hst, -⟩ := hI.returned c hreturned
      rw [hchild] at hst
      cases hst
    · cases hn
  | _ => trivial

end Inv

variable [DecidableEq ι] {capacity : ℕ+}

/-- **A run is sound in all its states exactly if its steps are orderly**: a start is announced
when the exit is recorded, and no handle is open when the status of a later process with its pid
is recorded. -/
theorem sound_iff_announced (acts : List (Act ι)) :
    (lts capacity).AllStates Sound init acts ↔ (lts capacity).AllSteps Orderly init acts :=
  LTS.allStates_iff_allSteps (fun _ hI => hI.sound) (fun _ _ _ hI hG hn => hI.next hG hn)
    (fun _ _ _ hI hn hs => hI.orderly_of_sound hn hs) inv_init

/-- A child is forked, and `CreateProcess` returns while it runs. -/
def startedChild : List (Act Unit) := [.fork () 7, .createEvent (), .started ()]

/-- The handle of a child that runs is signalled. -/
theorem running_signalled : ∃ s, (lts 1).run init startedChild = some s ∧
    s.parent () = .returned ∧ s.child () = .running ∧ WaitForSingleObject s () = true ∧
      ¬ Sound s := by
  refine ⟨_, rfl, rfl, rfl, rfl, fun h => ?_⟩
  obtain ⟨status, hstatus, -⟩ := h.waited () rfl rfl
  cases hstatus

end Process

end Swinx
