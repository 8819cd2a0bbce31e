import Mathlib.Logic.Function.Basic
import Mathlib.Tactic.Tauto
import Swinx.LTS.Basic

/-!
# One-time initialisation

The functions on an `INIT_ONCE` look at its state under a mutex and yield until it lets them go on.
The initialisers run without the mutex, and the end of one changes the state without looking at it.

* `initOnce_sound_iff` — these are the runs in which this is so.
* `winner_without_context` — the winner does not get the context.
-/

namespace Swinx

namespace InitOnce

open Function (update update_of_ne update_self)

/-- `RTL_RUN_ONCE_STATE_INIT`, `RTL_RUN_ONCE_STATE_IN_PROGRESS`, `RTL_RUN_ONCE_STATE_COMPLETE` -/
inductive RunState
  | init
  | inProgress
  | complete
  deriving DecidableEq, Repr

/-- Where a thread is; with what `*Context` holds, if there is such an argument. -/
inductive Pc
  | idle
  /-- The loop of `InitOnceExecuteOnce` -/
  | execute (context : Option ℕ)
  /-- `InitFn` -/
  | running (context : Option ℕ)
  /-- The loop of `InitOnceBeginInitialize` -/
  | beginning (async : Bool) (context : Option ℕ)
  /-- The caller initialises and will call `InitOnceComplete`. -/
  | pending
  deriving DecidableEq, Repr

/-- The object and the threads, and what has happened. -/
structure State where
  state : RunState
  context : ℕ
  pc : ℕ → Pc
  /-- The contexts of the initialisations that succeeded, the last one first. -/
  succeeded : List ℕ
  /-- An initialisation was started after one had succeeded. -/
  late : Bool
  /-- What `*Context` held when a call reported success. -/
  yields : List ℕ

/-- `INIT_ONCE_STATIC_INIT` -/
def init : State := ⟨.init, 0, fun _ => .idle, [], false, []⟩

namespace State

/-- A call reports success. -/
def report (s : State) (t : ℕ) (context : Option ℕ) : State :=
  { s with
    pc := update s.pc t .idle
    yields := context.toList ++ s.yields }

/-- An initialisation starts. -/
def start (s : State) (t : ℕ) (pc : Pc) : State :=
  { s with
    state := .inProgress
    pc := update s.pc t pc
    late := s.late || decide (s.succeeded ≠ []) }

/-- An initialisation has succeeded. -/
def succeed (s : State) (context : ℕ) : State :=
  { s with
    state := .complete
    context
    succeeded := context :: s.succeeded }

/-- One turn of the loop in which the thread is. -/
def loop (s : State) (t : ℕ) : Option State :=
  match s.pc t with
  | .execute context =>
    match s.state with
    | .complete => some (s.report t (context.map fun _ => s.context))
    | .init => some (s.start t (.running context))
    | .inProgress => some s
  | .beginning async context =>
    match s.state with
    | .complete => some (s.report t (context.map fun _ => s.context))
    | .init => some (s.start t .pending)
    | .inProgress => if async then some (s.start t .pending) else some s
  | _ => none

/-- `InitFn` returns. -/
def finish (s : State) (t : ℕ) (bRet : Bool) (ctx : ℕ) : Option State :=
  match s.pc t with
  | .running context =>
    if bRet then some ((s.succeed ctx).report t context)
    else
      some
        { s with
          state := .init
          pc := update s.pc t .idle }
  | _ => none

/-- `InitOnceComplete`, perhaps with `INIT_ONCE_INIT_FAILED` -/
def complete (s : State) (t : ℕ) (failed : Bool) (lpContext : ℕ) : Option State :=
  match s.pc t with
  | .pending =>
    if failed then
      some
        { s with
          state := .init
          pc := update s.pc t .idle }
    else some ((s.succeed lpContext).report t none)
  | _ => none

end State

/-- What a thread does. -/
inductive Act
  | initOnceExecuteOnce (t : ℕ) (context : Option ℕ)
  | initOnceBeginInitialize (t : ℕ) (async : Bool) (context : Option ℕ)
  | loop (t : ℕ)
  | finish (t : ℕ) (bRet : Bool) (ctx : ℕ)
  | initOnceComplete (t : ℕ) (failed : Bool) (lpContext : ℕ)
  deriving DecidableEq, Repr

/-- One step. -/
def next (s : State) : Act → Option State
  | .initOnceExecuteOnce t context =>
    if s.pc t = .idle then some { s with pc := update s.pc t (.execute context) } else none
  | .initOnceBeginInitialize t async context =>
    if s.pc t = .idle then some { s with pc := update s.pc t (.beginning async context) }
    else none
  | .loop t => s.loop t
  | .finish t bRet ctx => s.finish t bRet ctx
  | .initOnceComplete t failed lpContext => s.complete t failed lpContext

/-- The program. -/
def lts : LTS State Act := ⟨next⟩

/-- The thread has an initialisation to end. -/
def Pc.Attempts : Pc → Prop
  | .running _ => True
  | .pending => True
  | _ => False

/-- The thread waits for another one if it has to. -/
def Pc.Waits : Pc → Prop
  | .execute _ => True
  | .beginning _ _ => True
  | _ => False

/-- **One-time initialisation.** -/
structure Sound (s : State) : Prop where
  once : s.succeeded.length ≤ 1
  /-- No initialisation starts after one has succeeded. -/
  late : s.late = false
  /-- The state and the context stay. -/
  stays : ∀ ctx ∈ s.succeeded, s.state = .complete ∧ s.context = ctx
  /-- All that report success yield the context. -/
  same : ∀ ctx ∈ s.yields, ctx ∈ s.succeeded
  /-- Nobody waits for an initialisation that has ended. -/
  owner : s.state = .inProgress → ∃ t, (s.pc t).Attempts
  /-- After a failure one who waits takes it over. -/
  takeover : s.state = .init → ∀ t, (s.pc t).Waits →
    ∃ s', s.loop t = some s' ∧ s'.state = .inProgress ∧ (s'.pc t).Attempts

/-- **The steps that keep it so**: no initialisation ends after another one has succeeded, and in
the `*Context` of the thread whose `InitFn` succeeds is what this has made. -/
def Orderly (s : State) : Act → Prop
  | .finish t bRet ctx =>
    s.state ≠ .complete ∧ (bRet = true → ∀ v, s.pc t = .running (some v) → v = ctx)
  | .initOnceComplete _ _ _ => s.state ≠ .complete
  | _ => True

/-- **The invariant of the orderly runs.** -/
structure Inv (s : State) : Prop where
  late : s.late = false
  outcome : s.state ≠ .complete ∧ s.succeeded = [] ∧ s.yields = [] ∨
    s.state = .complete ∧ s.succeeded = [s.context] ∧ ∀ ctx ∈ s.yields, ctx = s.context
  owner : s.state = .inProgress → ∃ t, (s.pc t).Attempts

theorem inv_init : Inv init :=
  ⟨rfl, .inl ⟨by decide, rfl, rfl⟩, fun h => nomatch h⟩

theorem start_pc (s : State) (t : ℕ) (pc : Pc) :
    (s.start t pc).pc = update s.pc t pc := rfl

theorem loop_of_init {s : State} {t : ℕ} (hinit : s.state = .init) (hwaits : (s.pc t).Waits) :
    ∃ s', s.loop t = some s' ∧ s'.state = .inProgress ∧ (s'.pc t).Attempts := by
  unfold State.loop
  unfold Pc.Waits at hwaits
  cases hpc : s.pc t with
  | execute context =>
    refine ⟨s.start t (.running context), by simp only [hinit], rfl, ?_⟩
    rw [start_pc, update_self]
    trivial
  | beginning async context =>
    refine ⟨s.start t .pending, by simp only [hinit], rfl, ?_⟩
    rw [start_pc, update_self]
    trivial
  | idle => simp [hpc] at hwaits
  | running context => simp [hpc] at hwaits
  | pending => simp [hpc] at hwaits

theorem Inv.sound {s : State} (hI : Inv s) : Sound s := by
  obtain ⟨hstate, hnone, hyields⟩ | ⟨hstate, hone, hyields⟩ := hI.outcome
  · exact
      { once := by simp [hnone]
        late := hI.late
        stays := fun ctx h => absurd h (by simp [hnone])
        same := fun ctx h => absurd h (by simp [hyields])
        owner := hI.owner
        takeover := fun h _ => loop_of_init h }
  · exact
      { once := by simp [hone]
        late := hI.late
        stays := fun ctx h => ⟨hstate, (List.mem_singleton.1 (hone ▸ h)).symm⟩
        same := fun ctx h => hone ▸ List.mem_singleton.2 (hyields ctx h)
        owner := hI.owner
        takeover := fun h _ => loop_of_init h }

theorem Inv.moved {s : State} (hI : Inv s) {t : ℕ} {pc : Pc} (hpc : ¬ (s.pc t).Attempts) :
    Inv { s with pc := update s.pc t pc } := by
  refine ⟨hI.late, hI.outcome, fun h => ?_⟩
  obtain ⟨u, hu⟩ := hI.owner h
  have hne : u ≠ t := fun heq => hpc (heq ▸ hu)
  exact ⟨u, by simpa only [update_of_ne hne] using hu⟩

theorem Inv.reported {s : State} (hI : Inv s) {t : ℕ} (hstate : s.state = .complete)
    (context : Option ℕ) : Inv (s.report t (context.map fun _ => s.context)) := by
  obtain ⟨hne, -, -⟩ | ⟨-, hone, hyields⟩ := hI.outcome
  · exact absurd hstate hne
  refine ⟨hI.late, .inr ⟨hstate, hone, fun ctx h => ?_⟩, fun h => ?_⟩
  · rcases List.mem_append.1 h with h | h
    · cases context with
      | none => exact absurd h List.not_mem_nil
      | some _ => exact List.mem_singleton.1 h
    · exact hyields ctx h
  · exact absurd (hstate.symm.trans h) (by decide)

theorem Inv.started {s : State} (hI : Inv s) {t : ℕ} {pc : Pc} (hstate : s.state ≠ .complete)
    (hpc : pc.Attempts) : Inv (s.start t pc) := by
  obtain ⟨-, hnone, hyields⟩ | ⟨hcomplete, -, -⟩ := hI.outcome
  · refine ⟨?_, .inl ⟨by simp [State.start], hnone, hyields⟩, fun _ => ⟨t, ?_⟩⟩
    · simp [State.start, hI.late, hnone]
    · simpa only [State.start, update_self] using hpc
  · exact absurd hcomplete hstate

theorem Inv.succeeded {s : State} (hI : Inv s) {t ctx : ℕ} {context : Option ℕ}
    (hstate : s.state ≠ .complete) (hcontext : ∀ v ∈ context, v = ctx) :
    Inv ((s.succeed ctx).report t context) := by
  obtain ⟨-, hnone, hyields⟩ | ⟨hcomplete, -, -⟩ := hI.outcome
  · refine ⟨hI.late, .inr ⟨rfl, ?_, fun v h => ?_⟩, fun h => nomatch h⟩
    · exact congrArg _ hnone
    · rcases List.mem_append.1 h with h | h
      · exact hcontext v (Option.mem_toList.1 h)
      · exact absurd h (by simp [State.succeed, hyields])
  · exact absurd hcomplete hstate

theorem Inv.failed {s : State} (hI : Inv s) {t : ℕ} (hstate : s.state ≠ .complete) :
    Inv
      { s with
        state := .init
        pc := update s.pc t .idle } := by
  obtain ⟨-, hnone, hyields⟩ | ⟨hcomplete, -, -⟩ := hI.outcome
  · have hne : RunState.init ≠ .complete := by decide
    exact ⟨hI.late, .inl ⟨hne, hnone, hyields⟩, fun h => nomatch h⟩
  · exact absurd hcomplete hstate

theorem Inv.loop {s s' : State} (hI : Inv s) {t : ℕ} (h : s.loop t = some s') : Inv s' := by
  have hsame : some s = some s' → Inv s' := fun h => Option.some.inj h ▸ hI
  unfold State.loop at h
  split at h
  case h_1 context hpc =>
    split at h
    case h_1 hstate => exact Option.some.inj h ▸ hI.reported hstate context
    case h_2 hstate => exact Option.some.inj h ▸ hI.started (by simp [hstate]) trivial
    case h_3 => exact hsame h
  case h_2 async context hpc =>
    split at h
    case h_1 hstate => exact Option.some.inj h ▸ hI.reported hstate context
    case h_2 hstate => exact Option.some.inj h ▸ hI.started (by simp [hstate]) trivial
    case h_3 hstate =>
      split_ifs at h
      · exact Option.some.inj h ▸ hI.started (by simp [hstate]) trivial
      · exact hsame h
  case h_3 => cases h

theorem Inv.next {s s' : State} {act : Act} (hI : Inv s) (ho : Orderly s act)
    (h : next s act = some s') : Inv s' := by
  cases act with
  | initOnceExecuteOnce t context =>
    simp only [InitOnce.next, Option.ite_none_right_eq_some] at h
    obtain ⟨hidle, h⟩ := h
    exact Option.some.inj h ▸ hI.moved (by simp [hidle, Pc.Attempts])
  | initOnceBeginInitialize t async context =>
    simp only [InitOnce.next, Option.ite_none_right_eq_some] at h
    obtain ⟨hidle, h⟩ := h
    exact Option.some.inj h ▸ hI.moved (by simp [hidle, Pc.Attempts])
  | loop t => exact hI.loop h
  | finish t bRet ctx =>
    obtain ⟨hstate, hcontext⟩ := ho
    simp only [InitOnce.next, State.finish] at h
    split at h
    case h_2 => cases h
    case h_1 context hpc =>
      split_ifs at h with hret
      · exact Option.some.inj h ▸ hI.succeeded hstate fun v hv => hcontext hret v (by
          rw [hpc, Option.mem_def.1 hv])
      · exact Option.some.inj h ▸ hI.failed hstate
  | initOnceComplete t failed lpContext =>
    simp only [InitOnce.next, State.complete] at h
    split at h
    case h_2 => cases h
    case h_1 hpc =>
      split_ifs at h
      · exact Option.some.inj h ▸ hI.failed ho
      · exact Option.some.inj h ▸ hI.succeeded ho fun v hv => nomatch hv

theorem Inv.not_complete {s s' : State} (hI : Inv s) (hs : Sound s')
    (h : s'.state = .init ∧ s'.succeeded = s.succeeded ∨
      ∃ ctx, s'.succeeded = ctx :: s.succeeded) : s.state ≠ .complete := by
  intro hstate
  obtain ⟨hne, -, -⟩ | ⟨-, hone, -⟩ := hI.outcome
  · exact hne hstate
  rcases h with ⟨hinit, hsame⟩ | ⟨ctx, hcons⟩
  · have := (hs.stays s.context (by rw [hsame, hone]; exact List.mem_singleton_self _)).1
    exact absurd (hinit.symm.trans this) (by decide)
  · have := hs.once
    rw [hcons, hone, List.length_cons, List.length_singleton] at this
    omega

theorem Inv.orderly {s s' : State} {act : Act} (hI : Inv s) (h : InitOnce.next s act = some s')
    (hs : Sound s') : Orderly s act := by
  cases act with
  | initOnceExecuteOnce t context => trivial
  | initOnceBeginInitialize t async context => trivial
  | loop t => trivial
  | finish t bRet ctx =>
    simp only [InitOnce.next, State.finish] at h
    split at h
    case h_2 => cases h
    case h_1 context hpc =>
      split_ifs at h with hret
      · obtain rfl := Option.some.inj h
        have hstate : s.state ≠ .complete := hI.not_complete hs (.inr ⟨ctx, rfl⟩)
        refine ⟨hstate, fun _ v hv => ?_⟩
        obtain ⟨-, hnone, -⟩ | ⟨hcomplete, -, -⟩ := hI.outcome
        · obtain rfl := Pc.running.inj (hpc.symm.trans hv)
          have hmem := hs.same v (List.mem_append_left _ (List.mem_singleton_self v))
          have hsucceeded : ((s.succeed ctx).report t (some v)).succeeded = [ctx] :=
            congrArg (ctx :: ·) hnone
          rw [hsucceeded] at hmem
          exact List.mem_singleton.1 hmem
        · exact absurd hcomplete hstate
      · obtain rfl := Option.some.inj h
        exact ⟨hI.not_complete hs (.inl ⟨rfl, rfl⟩), fun h => absurd h hret⟩
  | initOnceComplete t failed lpContext =>
    simp only [InitOnce.next, State.complete] at h
    split at h
    case h_2 => cases h
    case h_1 hpc =>
      split_ifs at h
      · obtain rfl := Option.some.inj h
        exact hI.not_complete hs (.inl ⟨rfl, rfl⟩)
      · obtain rfl := Option.some.inj h
        exact hI.not_complete hs (.inr ⟨lpContext, rfl⟩)

/-- **Exactly the orderly runs are runs of one-time initialisation.** -/
theorem initOnce_sound_iff (acts : List Act) :
    lts.AllStates Sound init acts ↔ lts.AllSteps Orderly init acts :=
  LTS.allStates_iff_allSteps (I := Inv) (fun _ hI => hI.sound)
    (fun _ _ _ hI ho hn => hI.next ho hn) (fun _ _ _ hI hn hs => hI.orderly hn hs) inv_init

/-- `InitOnceExecuteOnce` with a `*Context` that holds 0; the initialiser makes the context 7. -/
def winnerActs : List Act := [.initOnceExecuteOnce 1 (some 0), .loop 1, .finish 1 true 7]

/-- **The winner does not get the context.** -/
theorem winner_without_context : ∃ s, lts.run init winnerActs = some s ∧ s.context = 7 ∧
    s.yields = [0] ∧ ¬ Sound s := by
  refine ⟨_, rfl, rfl, rfl, fun h => ?_⟩
  exact absurd (h.same 0 (List.mem_singleton_self 0)) (by decide)

end InitOnce

end Swinx
