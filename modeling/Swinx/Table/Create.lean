import Swinx.Table.Basic
import Swinx.Sync.Object

/-!
# Creating one named object from many processes

`CreateEventA`, `CreateSemaphoreA` and `CreateMutexA` on a name first probe for the object under
the table's lock (`OpenExistObject`), and if it is missing call `init`, which looks for the slot
again under the lock, and write the initial signals afterwards.  `Create.next` interleaves any
number of processes that create the same object.

An object should be initialised once (`OneInit`).  `init` does not tell its caller that it found
the slot of somebody else, so two processes whose probes both miss initialise the object twice
(`Create.two_initialisations`).  `Create.oneInit_iff` says that this is the only way to go wrong,
but for a name that does not fit into its slot.
-/

namespace Swinx

namespace Table

namespace Create

open Function (update update_of_ne update_self)

open Sync (Tid Data)

/-- The arguments of a creation. -/
inductive Args where
  /-- `CreateEventA` -/
  | event (bManualReset bInitialState : Bool)
  /-- `CreateSemaphoreA` -/
  | semaphore (lInitialCount lMaximumCount : ℤ)
  /-- `CreateMutexA` -/
  | mutex (bInitialOwner : Bool)
  deriving DecidableEq, Repr

namespace Args

/-- The type of the object. -/
def type : Args → HandleType
  | .event _ _ => .namedEvent
  | .semaphore _ _ => .namedSemaphore
  | .mutex _ => .namedMutex

/-- The data of the object, created by the thread `t`. -/
def data (t : Tid) : Args → Data
  | .event bManualReset _ => .event bManualReset
  | .semaphore lInitialCount lMaximumCount => .semaphore lInitialCount lMaximumCount
  | .mutex bInitialOwner => .mutex (if bInitialOwner then t else 0)

/-- How many initial signals the creator writes, when the slot has the data `d`. -/
def signals (d : Data) : Args → ℕ
  | .event _ bInitialState => if bInitialState then 1 else 0
  | .semaphore _ _ =>
    match d with
    | .semaphore sigCount _ => sigCount.toNat
    | _ => 0
  | .mutex bInitialOwner => if bInitialOwner then 0 else 1

/-- The initial signals of an object with one creator: `sigCount` for a semaphore, `1` for an
unowned mutex or a signalled event. -/
def initialSignals : Args → ℕ
  | .event _ bInitialState => if bInitialState then 1 else 0
  | .semaphore lInitialCount _ => lInitialCount.toNat
  | .mutex bInitialOwner => if bInitialOwner then 0 else 1

theorem signals_data (a : Args) (t : Tid) : a.signals (a.data t) = a.initialSignals := by
  cases a <;> rfl

end Args

/-- Progress inside a creation. -/
inductive Proc where
  | idle
  /-- Before `OpenExistObject`. -/
  | probing (a : Args)
  /-- `OpenExistObject` found nothing; before `init`. -/
  | missed (a : Args)
  /-- `init` of slot `i` succeeded; the initial signals are not counted yet. -/
  | inited (a : Args) (i : ℕ)
  /-- `k` initial signals are still to be written. -/
  | writing (i k : ℕ)
  /-- A handle is returned; has the caller been told that the object existed? -/
  | done (existed : Bool)
  /-- `init` failed. -/
  | failed
  deriving DecidableEq, Repr

/-- The table, the bytes in the FIFO of each slot, the processes, and the first creator. -/
structure State where
  tb : HandleTable Data
  tokens : ℕ → ℕ
  proc : Tid → Proc
  /-- Ghost: whose `init` claimed the slot first, with which arguments, and which slot. -/
  first : Option (Tid × Args × ℕ)

/-- What the environment decides in a step. -/
inductive Act where
  /-- Call `Create…`. -/
  | create (a : Args)
  /-- Execute the next step; do the system calls of its `init2` succeed? -/
  | run (ok : Bool)
  deriving DecidableEq, Repr

variable (name : Name) (ty : HandleType)

/-- One step of the process `l.1`. -/
def next (s : State) (l : Tid × Act) : Option (State) :=
  match s.proc l.1, l.2 with
  | .idle, .create a =>
    if a.type = ty then some { s with proc := update s.proc l.1 (.probing a) } else none
  | .probing a, .run ok =>
    match s.tb.openExist name ty ok with
    | (tb, some _) =>
      some { s with tb := tb, proc := update s.proc l.1 (.done true) }
    | (tb, none) => some { s with tb := tb, proc := update s.proc l.1 (.missed a) }
  | .missed a, .run ok =>
    match s.tb.init name ty (a.data l.1) ok with
    | some (tb, some i) =>
      some { s with
        tb := tb
        proc := update s.proc l.1 (.inited a i)
        first := s.first.or (some (l.1, a, i)) }
    | some (tb, none) => some { s with tb := tb, proc := update s.proc l.1 .failed }
    | none => none
  | .inited a i, .run _ =>
    some { s with
      proc := update s.proc l.1 (.writing i (a.signals (s.tb.slots i).data)) }
  | .writing i (k + 1), .run _ =>
    some { s with
      tokens := update s.tokens i (s.tokens i + 1)
      proc := update s.proc l.1 (.writing i k) }
  | .writing _ 0, .run _ =>
    some { s with proc := update s.proc l.1 (.done false) }
  | _, _ => none

/-- The creations of one object as a transition system. -/
def lts : LTS (State) (Tid × Act) := ⟨next name ty⟩

@[simp] theorem lts_next (s : State) (l : Tid × Act) :
    (lts name ty).next s l = next name ty s l := rfl

/-- Nobody has started yet. -/
def init (tb : HandleTable Data) : State := ⟨tb, fun _ => 0, fun _ => .idle, none⟩

/-! ### One initialisation -/

/-- The process has got past `init` without being told that the object existed. -/
def Proc.isCreator : Proc → Bool
  | .inited _ _ | .writing _ _ | .done false => true
  | _ => false

/-- **The object is initialised once.** -/
structure OneInit (s : State) : Prop where
  /-- Its slot carries the name, the type and the data of the first creator. -/
  data : ∀ p a i, s.first = some (p, a, i) → i < s.tb.totalSize ∧ (s.tb.slots i).type = some ty ∧
    (s.tb.slots i).szNick = name ∧ (s.tb.slots i).data = a.data p
  /-- Every other creator is told that it exists. -/
  told : ∀ q, (s.proc q).isCreator = true → ∃ a i, s.first = some (q, a, i)
  /-- Its FIFO gets the initial signals of the first creator, and no more. -/
  tokens : ∀ p a i, s.first = some (p, a, i) → s.tokens i ≤ a.initialSignals ∧
    (s.proc p = .done false → s.tokens i = a.initialSignals)
  /-- The name has been copied into the array for it. -/
  intact : s.tb.overrun = false

/-- The next step of the process is `init`. -/
def Proc.isMissed : Proc → Bool
  | .missed _ => true
  | _ => false

/-- The step is not an `init` that finds the object although its caller's probe has missed. -/
def StillMissing (s : State) (l : Tid × Act) : Prop :=
  (s.proc l.1).isMissed = true → s.tb.findExisted name ty = none

instance (s : State) (l : Tid × Act) : Decidable (StillMissing name ty s l) :=
  inferInstanceAs (Decidable (_ → _))

/-- The step is not an `init` with a name that does not fit into its slot. -/
def NickFits (s : State) (l : Tid × Act) : Prop :=
  (s.proc l.1).isMissed = true → name.length < SIZEOF_NICK

instance (s : State) (l : Tid × Act) : Decidable (NickFits name s l) :=
  inferInstanceAs (Decidable (_ → _))

/-! ### What the steps do -/

variable {name ty}

theorem openExist_keeps (name : Name) (ty : HandleType) (tb : HandleTable Data) (ok : Bool) :
    (tb.openExist name ty ok).1.totalSize = tb.totalSize ∧
      (tb.openExist name ty ok).1.overrun = tb.overrun ∧ ∀ j,
      ((tb.openExist name ty ok).1.slots j).type = (tb.slots j).type ∧
      ((tb.openExist name ty ok).1.slots j).szNick = (tb.slots j).szNick ∧
      ((tb.openExist name ty ok).1.slots j).data = (tb.slots j).data := by
  unfold HandleTable.openExist
  split
  · split_ifs
    · refine ⟨rfl, rfl, fun j => ?_⟩
      grind
    · exact ⟨rfl, rfl, fun j => ⟨rfl, rfl, rfl⟩⟩
  · exact ⟨rfl, rfl, fun j => ⟨rfl, rfl, rfl⟩⟩

/-- The slot holds the object. -/
def Holds (name : Name) (ty : HandleType) (tb : HandleTable Data) (i : ℕ) : Prop :=
  i < tb.totalSize ∧ (tb.slots i).type = some ty ∧ (tb.slots i).szNick = name

/-- The first creator is writing the initial signals, or has written them. -/
def Writing (s : State) (p : Tid) (a : Args) (i : ℕ) : Prop :=
  (s.proc p = .inited a i ∧ s.tokens i = 0) ∨
    (∃ k, s.proc p = .writing i k ∧ s.tokens i + k = a.initialSignals) ∨
    (s.proc p = .done false ∧ s.tokens i = a.initialSignals)

/-- The invariant of the runs without a lost race. -/
structure Inv (name : Name) (ty : HandleType) (s : State) : Prop where
  missing : s.first = none → (∀ i, ¬ Holds name ty s.tb i) ∧
    (∀ q, (s.proc q).isCreator = false) ∧ ∀ i, s.tokens i = 0
  found : ∀ p a i, s.first = some (p, a, i) → (∀ j, Holds name ty s.tb j ↔ j = i) ∧
    (s.tb.slots i).data = a.data p ∧ (∀ q, q ≠ p → (s.proc q).isCreator = false) ∧
    Writing s p a i
  intact : s.tb.overrun = false

theorem inv_init {tb : HandleTable Data} (h : tb.findExisted name ty = none)
    (hover : tb.overrun = false) : Inv name ty (init tb) where
  missing _ := ⟨fun _ hi => HandleTable.findExisted_eq_none h hi.1 hi.2, fun _ => rfl, fun _ => rfl⟩
  found := nofun
  intact := hover

theorem Inv.oneInit {s : State} (h : Inv name ty s) : OneInit name ty s where
  data p a i hf := by
    obtain ⟨hh, hd, -⟩ := h.found p a i hf
    obtain ⟨hi, hty, hn⟩ := (hh i).2 rfl
    exact ⟨hi, hty, hn, hd⟩
  told q hq := by
    cases hf : s.first with
    | none => rw [(h.missing hf).2.1 q] at hq; cases hq
    | some x =>
      obtain ⟨p, a, i⟩ := x
      by_cases hqp : q = p
      · exact ⟨a, i, by rw [hqp]⟩
      · rw [(h.found p a i hf).2.2.1 q hqp] at hq
        cases hq
  tokens p a i hf := by
    obtain ⟨-, -, -, h₁ | ⟨k, h₂, hk⟩ | h₃⟩ := h.found p a i hf
    · exact ⟨by omega, fun hd => by rw [h₁.1] at hd; cases hd⟩
    · exact ⟨by omega, fun hd => by rw [h₂] at hd; cases hd⟩
    · exact ⟨h₃.2.le, fun _ => h₃.2⟩
  intact := h.intact

theorem Inv.move {s : State} {t : Tid} {pr : Proc} {tb : HandleTable Data}
    (hI : Inv name ty s) (ht : (s.proc t).isCreator = false) (hpr : pr.isCreator = false)
    (htb : tb.totalSize = s.tb.totalSize ∧ tb.overrun = s.tb.overrun ∧
      ∀ j, (tb.slots j).type = (s.tb.slots j).type ∧
        (tb.slots j).szNick = (s.tb.slots j).szNick ∧ (tb.slots j).data = (s.tb.slots j).data) :
    Inv name ty { s with tb := tb, proc := update s.proc t pr } := by
  have hholds : ∀ i, Holds name ty tb i ↔ Holds name ty s.tb i := fun i => by
    simp only [Holds, htb.1, (htb.2.2 i).1, (htb.2.2 i).2.1]
  have hcreator : ∀ q, (update s.proc t pr q).isCreator = (s.proc q).isCreator := by
    intro q
    by_cases hq : q = t
    · subst hq; rw [update_self, hpr, ht]
    · rw [update_of_ne hq]
  refine ⟨fun hf => ?_, fun p a i hf => ?_, htb.2.1.trans hI.intact⟩
  · obtain ⟨h₁, h₂, h₃⟩ := hI.missing hf
    exact ⟨fun i => (hholds i).not.2 (h₁ i), fun q => (hcreator q).trans (h₂ q), h₃⟩
  · obtain ⟨h₁, h₂, h₃, h₄⟩ := hI.found p a i hf
    have hp : p ≠ t := by
      rintro rfl
      rcases h₄ with h | ⟨k, h, -⟩ | h <;> simp [h, Proc.isCreator] at ht
    refine ⟨fun j => (hholds j).trans (h₁ j), by rw [(htb.2.2 i).2.2, h₂],
      fun q hq => (hcreator q).trans (h₃ q hq), ?_⟩
    simpa [Writing, update_of_ne hp] using h₄

theorem Inv.write {s s' : State} {p : Tid} {a : Args} {i : ℕ} {pr : Proc}
    (hI : Inv name ty s) (hf : s.first = some (p, a, i)) (htb : s'.tb = s.tb)
    (hf' : s'.first = s.first) (hproc : s'.proc = update s.proc p pr)
    (hw : Writing s' p a i) : Inv name ty s' := by
  obtain ⟨h₁, h₂, h₃, -⟩ := hI.found p a i hf
  refine ⟨fun h => by simp [hf', hf] at h, fun p' a' i' h => ?_, htb ▸ hI.intact⟩
  obtain ⟨rfl, rfl, rfl⟩ : p = p' ∧ a = a' ∧ i = i' := by simpa [hf', hf] using h
  exact ⟨htb ▸ h₁, htb ▸ h₂,
    fun q hq => by simpa [hproc, update_of_ne hq] using h₃ q hq, hw⟩

theorem Inv.next {s s' : State} {l : Tid × Act} (hI : Inv name ty s)
    (hG : StillMissing name ty s l ∧ NickFits name s l) (h : next name ty s l = some s') :
    Inv name ty s' := by
  unfold Create.next at h
  split at h
  case h_1 hp _ =>
    split_ifs at h
    cases h
    exact hI.move (by rw [hp]; rfl) rfl ⟨rfl, rfl, fun _ => ⟨rfl, rfl, rfl⟩⟩
  case h_2 a ok hp _ =>
    have hkeep := openExist_keeps name ty s.tb ok
    split at h
    all_goals
      rename_i tb _ ho
      cases h
      rw [ho] at hkeep
      exact hI.move (by rw [hp]; rfl) rfl hkeep
  case h_3 a ok hp _ =>
    have hmiss := hG.1 (by rw [hp]; rfl)
    have hfits : ¬ SIZEOF_NICK ≤ name.length := (hG.2 (by rw [hp]; rfl)).not_ge
    have hno : s.first = none := by
      cases hf : s.first with
      | none => rfl
      | some x =>
        have h₁ := ((hI.found x.1 x.2.1 x.2.2 hf).1 _).2 rfl
        exact absurd h₁.2 (HandleTable.findExisted_eq_none hmiss h₁.1)
    obtain ⟨h₁, h₂, h₃⟩ := hI.missing hno
    simp only [HandleTable.init, hmiss] at h
    cases hav : s.tb.findAvailable with
    | none => rw [hav] at h; cases h
    | some i =>
      obtain ⟨hi, hty⟩ := HandleTable.findAvailable_eq_some hav
      rw [hav] at h
      cases ok with
      | true =>
        cases h
        refine ⟨fun hf => by simp [hno] at hf, fun p a' i' hf => ?_, by simp [hI.intact, hfits]⟩
        obtain ⟨rfl, rfl, rfl⟩ : l.1 = p ∧ a = a' ∧ i = i' := by simpa [hno] using hf
        refine ⟨fun j => ?_, ?_, fun q hq => ?_, .inl ⟨update_self .., h₃ _⟩⟩
        · have := h₁ j
          grind [Holds]
        · simp [HandleTable.slots_attach, HandleTable.slots_claim]
        · simpa [update_of_ne hq] using h₂ q
      | false =>
        cases h
        refine ⟨fun _ => ⟨fun j hj => ?_, fun q => ?_, h₃⟩, fun p a' i' hf => by simp [hno] at hf,
          by simp [hI.intact, hfits]⟩
        · have := h₁ j
          grind [Holds]
        · by_cases hq : q = l.1
          · subst hq; simp [Proc.isCreator]
          · simpa [update_of_ne hq] using h₂ q
  case h_4 a i _ hp _ =>
    cases h
    obtain ⟨a', i', hf⟩ := hI.oneInit.told l.1 (by rw [hp]; rfl)
    obtain ⟨-, hd, -, hw⟩ := hI.found _ _ _ hf
    have hw' : (Proc.inited a i = .inited a' i') ∧ s.tokens i' = 0 := by
      simpa [Writing, hp] using hw
    obtain ⟨⟨rfl, rfl⟩, ht⟩ := And.imp_left Proc.inited.inj hw'
    refine hI.write hf rfl rfl rfl (.inr (.inl ⟨_, update_self .., ?_⟩))
    rw [ht, hd, Args.signals_data, Nat.zero_add]
  case h_5 i k _ hp _ =>
    cases h
    obtain ⟨a', i', hf⟩ := hI.oneInit.told l.1 (by rw [hp]; rfl)
    obtain ⟨-, -, -, hw⟩ := hI.found _ _ _ hf
    obtain ⟨rfl, ht⟩ : i = i' ∧ s.tokens i' + (k + 1) = a'.initialSignals := by
      simpa [Writing, hp] using hw
    refine hI.write hf rfl rfl rfl (.inr (.inl ⟨k, update_self .., ?_⟩))
    simp only [update_self]
    omega
  case h_6 i _ hp _ =>
    cases h
    obtain ⟨a', i', hf⟩ := hI.oneInit.told l.1 (by rw [hp]; rfl)
    obtain ⟨-, -, -, hw⟩ := hI.found _ _ _ hf
    obtain ⟨rfl, ht⟩ : i = i' ∧ s.tokens i' = a'.initialSignals := by
      simpa [Writing, hp] using hw
    exact hI.write hf rfl rfl rfl (.inr (.inr ⟨update_self .., ht⟩))
  case h_7 => cases h

/-- An `init` that finds the object initialises it again, or frees its slot. -/
theorem stillMissing_of_oneInit {s s' : State} {l : Tid × Act} (hI : Inv name ty s)
    (h : next name ty s l = some s') (hO : OneInit name ty s') : StillMissing name ty s l := by
  intro hmissed
  obtain ⟨a, hp⟩ : ∃ a, s.proc l.1 = .missed a := by
    cases hp : s.proc l.1 <;> simp_all [Proc.isMissed]
  cases hfound : s.tb.findExisted name ty with
  | none => rfl
  | some j =>
    exfalso
    obtain ⟨hj, hjty, hjn⟩ := HandleTable.findExisted_eq_some hfound
    cases hf : s.first with
    | none => exact (hI.missing hf).1 j ⟨hj, hjty, hjn⟩
    | some x =>
      obtain ⟨p, a', i⟩ := x
      obtain ⟨h₁, -, -, hw⟩ := hI.found p a' i hf
      obtain rfl := (h₁ j).1 ⟨hj, hjty, hjn⟩
      have hne : l.1 ≠ p := by
        rintro rfl
        simp [Writing, hp] at hw
      obtain ⟨t, act⟩ := l
      cases act with
      | create _ => simp [Create.next, hp] at h
      | run ok =>
        cases ok with
        | true =>
          -- the second creator is not told
          simp only [Create.next, hp, HandleTable.init, hfound, HandleTable.initAt, if_true] at h
          cases h
          obtain ⟨_, _, hq⟩ := hO.told t (by simp [Proc.isCreator])
          rw [hf] at hq
          exact hne (congrArg Prod.fst (Option.some.inj hq)).symm
        | false =>
          -- the slot of the first creator is freed
          simp only [Create.next, hp, HandleTable.init, hfound, HandleTable.initAt] at h
          cases h
          have hty := (hO.data p a' j hf).2.1
          simp [HandleTable.slots_discard] at hty

/-- An `init` of a missing object with a name that does not fit overruns the slot. -/
theorem nickFits_of_intact {s s' : State} {l : Tid × Act} (hG : StillMissing name ty s l)
    (h : next name ty s l = some s') (hs : s'.tb.overrun = false) : NickFits name s l := by
  intro hmissed
  obtain ⟨a, hp⟩ : ∃ a, s.proc l.1 = .missed a := by
    cases hp : s.proc l.1 <;> simp_all [Proc.isMissed]
  obtain ⟨t, act⟩ := l
  cases act with
  | create _ => simp [Create.next, hp] at h
  | run ok =>
    simp only [Create.next, hp, HandleTable.init, hG hmissed] at h
    cases hav : s.tb.findAvailable with
    | none => rw [hav] at h; cases h
    | some i =>
      rw [hav] at h
      cases ok <;> cases h <;> simpa using (Bool.or_eq_false_iff.1 hs).2

/-- **A named object is initialised once exactly in the runs in which no `init` finds an object
that its caller's probe has missed, or copies a name that does not fit into the slot**: any number
of processes, any interleaving of probes, `init`s and initial signals, any results of the system
calls. -/
theorem oneInit_iff (tb : HandleTable Data) (h : tb.findExisted name ty = none)
    (hover : tb.overrun = false) (ls : List (Tid × Act)) :
    (lts name ty).AllStates (OneInit name ty) (init tb) ls ↔
      (lts name ty).AllSteps (fun s l => StillMissing name ty s l ∧ NickFits name s l)
        (init tb) ls := by
  refine LTS.allStates_iff_allSteps (I := Inv name ty) (fun _ => Inv.oneInit)
    (fun _ _ _ hI hG hn => hI.next hG hn) (fun _ _ _ hI hn hO => ?_) (inv_init h hover)
  have hmissing := stillMissing_of_oneInit hI hn hO
  exact ⟨hmissing, nickFits_of_intact hmissing hn hO.intact⟩

/-- One process creates the mutex `m`, a second one finds it. -/
def noRace : List (Tid × Act) :=
  [(1, .create (.mutex false)), (1, .run true), (1, .run true), (2, .create (.mutex false)),
    (2, .run true), (1, .run true), (1, .run true), (1, .run true)]

theorem oneInit_noRace :
    (∃ s, (lts [109] .namedMutex).run (init (.empty 4 ⟨none, 0, [], .mutex 0⟩)) noRace = some s ∧
      s.proc 1 = .done false ∧ s.proc 2 = .done true) ∧
    (lts [109] .namedMutex).AllStates (OneInit [109] .namedMutex)
      (init (.empty 4 ⟨none, 0, [], .mutex 0⟩)) noRace :=
  ⟨⟨_, rfl, rfl, rfl⟩, (oneInit_iff _ (by decide) rfl noRace).2 (by decide +kernel)⟩

/-- Two processes create the mutex `m`, both probe before either creates it. -/
def lostRace : List (Tid × Act) :=
  [(1, .create (.mutex false)), (2, .create (.mutex false)), (1, .run true), (2, .run true),
    (1, .run true), (2, .run true), (1, .run true), (1, .run true), (1, .run true),
    (2, .run true), (2, .run true), (2, .run true)]

/-- **A named object can be initialised twice**: the mutex gets two tokens and both creators are
told that they created it. -/
theorem two_initialisations : ∃ s, (lts [109] .namedMutex).run
      (init (.empty 4 ⟨none, 0, [], .mutex 0⟩)) lostRace = some s ∧
    s.proc 1 = .done false ∧ s.proc 2 = .done false ∧ s.tokens 0 = 2 ∧
    (Args.mutex false).initialSignals = 1 ∧ ¬ OneInit [109] .namedMutex s := by
  refine ⟨_, rfl, rfl, rfl, rfl, rfl, fun h => ?_⟩
  have := (h.tokens 1 (.mutex false) 0 rfl).1
  exact absurd this (by decide)

end Create

end Table

end Swinx
