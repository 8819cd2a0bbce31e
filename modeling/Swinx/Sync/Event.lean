import Swinx.Sync.Single

/-!
# Events and the one-bit event

A Win32 event is one bit.  The event of the library is a pipe that `SetEvent` writes a byte into
and `ResetEvent` and the waits on auto-reset events empty byte by byte.  `oneBit` is the abstract
event; `Event.Refines` says that the effects of the steps so far are a run of it, and what follows
from that for the waits.

Manual-reset events refine the bit in every interleaving.  On an auto-reset event two waits can
share the bytes of several `SetEvent`s (`Event.two_waiters`); `Event.refines_iff` says that this is
the only way to leave the one-bit event: a wait takes its first byte while the wait that took the
bit is still emptying the pipe.
-/

namespace Swinx

namespace Sync

namespace Event

/-! ### The one-bit event -/

/-- The one-bit event.  A wait succeeds only while the bit is set, and clears it unless the event
is manual-reset. -/
def oneBit (bManualReset : Bool) : LTS Bool Ev where
  next v
    | .set => some true
    | .reset => some false
    | .took | .passed => if v then some bManualReset else none
    | _ => some v

/-- The bit after a history (newest first), if the history is a run of the one-bit event. -/
def bit (bManualReset bInitialState : Bool) (h : List (Tid × Ev)) : Option Bool :=
  (oneBit bManualReset).run bInitialState (h.map Prod.snd).reverse

variable {b i : Bool} {t u : Tid} {h h₁ h₂ : List (Tid × Ev)}

theorem bit_cons (e : Ev) :
    bit b i ((t, e) :: h) = (bit b i h).bind fun v => (oneBit b).next v e := by
  simp [bit, LTS.run_append, LTS.run_cons]

/-- Once cleared the bit stays cleared until it is set, and no wait succeeds. -/
theorem bit_eq_false_of_not_set {v : Bool} (h0 : bit b i h₁ = some false)
    (hset : ∀ u, (u, Ev.set) ∉ h₂) (hv : bit b i (h₂ ++ h₁) = some v) : v = false := by
  induction h₂ generalizing v with
  | nil => exact (Option.some.inj (h0.symm.trans hv)).symm
  | cons x h₂ ih =>
    obtain ⟨u, e⟩ := x
    rw [List.cons_append, bit_cons] at hv
    obtain ⟨w, hw, hv⟩ := Option.bind_eq_some_iff.1 hv
    obtain rfl := ih (fun u hu => hset u (List.mem_cons_of_mem _ hu)) hw
    cases e with
    | set => exact absurd (List.mem_cons_self ..) (hset u)
    | took | passed => cases hv
    | _ => exact (Option.some.inj hv).symm

theorem bit_isSome_of_append (hb : (bit b i (h₂ ++ h₁)).isSome) : (bit b i h₁).isSome := by
  induction h₂ with
  | nil => exact hb
  | cons x h₂ ih =>
    rw [List.cons_append, bit_cons] at hb
    exact ih (Option.isSome_of_isSome_bind hb)

/-- The effect of a successful wait. -/
def Succeeds (e : Ev) : Prop := e = .took ∨ e = .passed

/-- Between an effect satisfying `p` and a later successful wait there is a `SetEvent`. -/
def SetBetween (p : Ev → Prop) (h : List (Tid × Ev)) : Prop :=
  ∀ h₃ h₂ h₁ t u e e', p e → Succeeds e' → h = h₃ ++ (u, e') :: (h₂ ++ (t, e) :: h₁) →
    ∃ v, (v, Ev.set) ∈ h₂

theorem setBetween_of_bit {p : Ev → Prop} (hp : ∀ e v w, p e → (oneBit b).next v e = some w →
    w = false) (hb : (bit b i h).isSome) : SetBetween p h := by
  rintro h₃ h₂ h₁ t u e e' he he' rfl
  by_contra hset
  have hb' := bit_isSome_of_append hb
  obtain ⟨w, hw⟩ := Option.isSome_iff_exists.1 hb'
  rw [bit_cons] at hw
  obtain ⟨v, hv, hw⟩ := Option.bind_eq_some_iff.1 hw
  obtain ⟨x, hx⟩ := Option.isSome_iff_exists.1 (bit_isSome_of_append (Option.isSome_of_eq_some hv))
  have hx' := hx
  rw [bit_cons] at hx'
  obtain ⟨y, -, hy⟩ := Option.bind_eq_some_iff.1 hx'
  obtain rfl := hp e y x he hy
  obtain rfl := bit_eq_false_of_not_set hx (fun v hv => hset ⟨v, hv⟩) hv
  rcases he' with rfl | rfl <;> cases hw

/-! ### What the calls do to an event -/

/-- Where a thread is between two accesses that belong together. -/
inductive Stage where
  | outside
  /-- In a wait on a manual-reset event, past `select`. -/
  | passed
  /-- In `onWaitDone`, with at least one byte taken. -/
  | draining
  /-- In `ResetEvent`. -/
  | resetting
  deriving DecidableEq, Repr

/-- The stage of a place inside a call. -/
def stageOf (bManualReset : Bool) : Op → Stage
  | .wait .enter => if bManualReset then .passed else .outside
  | .wait (.drain (_ + 1)) | .recheck (.drain (_ + 1)) => .draining
  | .resetEvent _ => .resetting
  | _ => .outside

/-- The stage of a thread. -/
def stage (bManualReset : Bool) (s : Single) (t : Tid) : Stage :=
  ((s.op t).map (stageOf bManualReset)).getD .outside

theorem op_eq_resetEvent {s : Single} (h : stage b s t = .resetting) :
    ∃ n, s.op t = some (.resetEvent n) := by
  cases hop : s.op t with
  | none => simp [stage, hop] at h
  | some op =>
    simp only [stage, hop, Option.map_some, Option.getD_some] at h
    unfold stageOf at h
    split at h <;> (try split_ifs at h) <;> simp_all

/-- The first read of the pipe by a wait. -/
def isFirstRead : Op → Bool
  | .wait .enter | .wait (.drain 0) | .recheck .enter | .recheck (.drain 0) => true
  | _ => false

/-- **What a step of `t` does to an event.**  The last argument lists its effects, newest first. -/
inductive Step (b : Bool) (t : Tid) (ob : Obj) : Stage → Obj → Stage → List Ev → Prop
  | idle : Step b t ob .outside ob .outside []
  | fail (r : Ret) : r ≠ .wait WAIT_OBJECT_0 → Step b t ob .outside ob .outside [.returned r]
  | startReset : Step b t ob .outside ob .resetting []
  | set : Step b t ob .outside ob.writeSignal .outside [.returned (.bool true), .set]
  | pass : b = true → 0 < ob.tokens → Step b t ob .outside ob .passed [.passed]
  | done : Step b t ob .passed ob .outside [.returned (.wait WAIT_OBJECT_0), .acquired]
  | recheck : Step b t ob .outside ob .outside [.returned (.bool true), .acquired]
  | take : b = false → 0 < ob.tokens →
    Step b t ob .outside { ob with tokens := ob.tokens - 1 } .draining [.took]
  | drain : b = false → 0 < ob.tokens →
    Step b t ob .draining { ob with tokens := ob.tokens - 1 } .draining []
  | drained (r : Ret) : ob.tokens = 0 →
    Step b t ob .draining ob .outside [.returned r, .acquired]
  | resetTake : 0 < ob.tokens →
    Step b t ob .resetting { ob with tokens := ob.tokens - 1 } .resetting []
  | resetDone : ob.tokens = 0 →
    Step b t ob .resetting ob .outside [.returned (.bool true), .reset]

theorem step_of_waitDone {t : Tid} {ob ob' : Obj} {w : WaitDone} {r : WaitDone.Res}
    {evs : List Ev} (hk : ob.data.kind = .event b) (hf : w.fits (.event b) = true)
    (h : w.step t ob = some (ob', r, evs)) :
    (b = true ∧ w = .enter ∧ r = .done true ∧ ob' = ob ∧ evs = [.acquired]) ∨
    (b = false ∧ ∃ k, (w = .enter ∧ k = 0 ∨ w = .drain k) ∧
      ((0 < ob.tokens ∧ r = .more (.drain (k + 1)) ∧ ob' = { ob with tokens := ob.tokens - 1 } ∧
        evs = if k = 0 then [.took] else []) ∨
      (ob.tokens = 0 ∧ r = .done (decide (0 < k)) ∧ ob' = ob ∧
        evs = if 0 < k then [.acquired] else []))) := by
  have hdrain : ∀ k, WaitDone.drainStep ob k = (ob', r, evs) →
      (0 < ob.tokens ∧ r = .more (.drain (k + 1)) ∧ ob' = { ob with tokens := ob.tokens - 1 } ∧
        evs = if k = 0 then [.took] else []) ∨
      (ob.tokens = 0 ∧ r = .done (decide (0 < k)) ∧ ob' = ob ∧
        evs = if 0 < k then [.acquired] else []) := by
    intro k hk
    unfold WaitDone.drainStep Obj.readSignal at hk
    split_ifs at hk with ht <;> cases hk <;> grind
  have hd : ob.data = .event b := by
    cases hd : ob.data <;> simp_all [Data.kind]
  cases w <;> simp only [WaitDone.step] at h <;> grind [WaitDone.fits, Kind.autoReset]

theorem step_of_run {t : Tid} {ob ob' : Obj} {op : Op} {r : Op.Res} {evs : List Ev}
    (hk : ob.data.kind = .event b) (hf : op.fits (.event b) = true)
    (h : op.step t ob = some (ob', r, evs)) :
    Step b t ob (stageOf b op) ob' ((r.toOp.map (stageOf b)).getD .outside) (r.evs ++ evs) := by
  have hd : ob.data = .event b := by
    cases hd : ob.data <;> simp_all [Data.kind]
  cases op with
  | wait w | recheck w =>
    obtain ⟨⟨_, _, _⟩, hx, he⟩ := Option.map_eq_some_iff.1 h
    rcases step_of_waitDone hk hf hx with ⟨rfl, rfl, rfl, rfl, rfl⟩ |
      ⟨rfl, k, hw, ⟨ht, rfl, rfl, rfl⟩ | ⟨ht, rfl, rfl, rfl⟩⟩ <;> cases he
    · first | exact .done | exact .recheck
    · rcases hw with ⟨rfl, rfl⟩ | rfl
      · exact .take rfl ht
      · cases k with
        | zero => exact .take rfl ht
        | succ k => exact .drain rfl ht
    · rcases hw with ⟨rfl, rfl⟩ | rfl
      · first | exact .idle | exact .fail (.bool false) (by simp)
      · cases k with
        | zero => first | exact .idle | exact .fail (.bool false) (by simp)
        | succ k => exact .drained _ ht
  | select =>
    simp only [Op.step, Obj.ready, Obj.manualReset, hd, Data.kind, Kind.manualReset] at h
    split_ifs at h with ht hb <;> cases h
    · subst hb
      exact .pass rfl (by simpa using ht)
    · obtain rfl : b = false := by simpa using hb
      exact .idle
  | setEvent =>
    simp only [Op.step, hd] at h
    cases h
    exact .set
  | resetEvent n =>
    cases hr : ob.readSignal with
    | some ob₁ =>
      simp only [Op.step, hd, hr] at h
      cases h
      obtain ⟨ht, rfl⟩ := Obj.readSignal_eq_some.1 hr
      exact .resetTake ht
    | none =>
      simp only [Op.step, hd, hr] at h
      cases h
      exact .resetDone (Obj.readSignal_eq_none.1 hr)
  | retry => cases h; exact .idle
  | releaseMutex | releaseSemaphore | fireTimer | cancelTimer =>
    simp only [Op.step, hd] at h
    cases h
    exact .fail _ (by simp)
  | post | clear | relTest | relWrite | relUnlock => cases hf

theorem step_of_act {t : Tid} {ob ob' : Obj} {op : Op} {a : Act} {r : Op.Res} {evs : List Ev}
    (hk : ob.data.kind = .event b) (hf : op.fits (.event b) = true)
    (h : op.act t ob a = some (ob', r, evs)) :
    Step b t ob (stageOf b op) ob' ((r.toOp.map (stageOf b)).getD .outside) (r.evs ++ evs) := by
  cases a with
  | run => exact step_of_run hk hf h
  | start _ => cases h
  | timeout | error =>
    cases op <;> simp only [Op.act, reduceCtorEq] at h <;> (try split_ifs at h) <;> cases h <;>
      exact .fail _ (by decide)

theorem stage_of_isEntry {op : Op} (h : op.isEntry = true) :
    stageOf b op = .outside ∨ stageOf b op = .resetting := by
  unfold Op.isEntry at h
  split at h <;> simp_all [stageOf]

theorem step_of_next {s s' : Single} {l : Label} (hs : s.Fits (.event b))
    (h : s.next l = some s') : ∃ st es, Step b l.1 s.ob (stage b s l.1) s'.ob st es ∧
      (∀ u, stage b s' u = if u = l.1 then st else stage b s u) ∧
      s'.hist = es.map (l.1, ·) ++ s.hist := by
  rcases Single.next_cases h with ⟨op, -, hop, hen, rfl⟩ | ⟨op, ob', r, evs, hop, hact, rfl⟩
  · have hst : stage b s l.1 = .outside := by simp [stage, hop]
    refine ⟨stageOf b op, [], ?_, fun u => ?_, rfl⟩
    · rw [hst]
      rcases stage_of_isEntry (b := b) hen with he | he <;> rw [he]
      · exact .idle
      · exact .startReset
    · by_cases hu : u = l.1
      · subst hu; simp [stage]
      · simp [stage, hu]
  · have hst : stage b s l.1 = stageOf b op := by simp [stage, hop]
    refine ⟨_, r.evs ++ evs, hst ▸ step_of_act hs.kind (hs.op _ _ hop) hact, fun u => ?_, rfl⟩
    by_cases hu : u = l.1
    · subst hu; simp [stage]
    · simp [stage, hu]

/-! ### Successful waits take effect -/

/-- The newest of the effects of `t`'s waits and the returns of its calls is an effect. -/
def pending (t : Tid) : List (Tid × Ev) → Bool
  | [] => false
  | (u, .took) :: h | (u, .passed) :: h => decide (u = t) || pending t h
  | (u, .returned _) :: h => !decide (u = t) && pending t h
  | _ :: h => pending t h

/-- Every wait that returned `WAIT_OBJECT_0` has taken effect before. -/
def Effective : List (Tid × Ev) → Prop
  | [] => True
  | (t, e) :: h => (e = .returned (.wait WAIT_OBJECT_0) → pending t h = true) ∧ Effective h

/-- What holds of events in every run. -/
structure Base (b : Bool) (s : Single) : Prop where
  fits : s.Fits (.event b)
  pending : ∀ t, stage b s t = .passed ∨ stage b s t = .draining → pending t s.hist = true
  effective : Effective s.hist

/-- An event just created. -/
def created (bManualReset bInitialState : Bool) : Single :=
  Single.init (Obj.createEvent bManualReset bInitialState)

theorem base_created (b i : Bool) : Base b (created b i) := by
  refine ⟨?_, fun t ht => ?_, trivial⟩
  · have := Single.fits_init (Obj.createEvent b i)
    cases i <;> exact this
  · rcases ht with ht | ht <;> cases ht

theorem Base.next {s s' : Single} {l : Label} (hI : Base b s) (h : s.next l = some s') :
    Base b s' := by
  obtain ⟨st, es, hstep, hst, hh⟩ := step_of_next hI.fits h
  have hfits := hI.fits.next h
  obtain ⟨-, hpend, heff⟩ := hI
  generalize hs₀ : stage b s l.1 = st₀ at hstep
  generalize hob : s'.ob = ob' at hstep
  refine ⟨hfits, fun t ht => ?_, ?_⟩
  · cases hstep <;> grind [Event.pending]
  · cases hstep <;> grind [Event.pending, Effective]

/-! ### The refinement -/

/-- No thread is inside `ResetEvent`. -/
def NotResetting (s : Single) : Prop := ∀ t n, s.op t ≠ some (.resetEvent n)

/-- Every wait in progress succeeds with its next steps, does not time out and leaves the event as
it is. -/
def WaitsSucceed (s : Single) : Prop :=
  ∀ t, (s.op t = some .select → s.next (t, .timeout) = none ∧
      ∃ s', Single.lts.run s [(t, .run), (t, .run)] = some s' ∧ s'.ob = s.ob ∧
        s'.hist = [(t, .returned (.wait WAIT_OBJECT_0)), (t, .acquired), (t, .passed)] ++ s.hist) ∧
    (s.op t = some (.wait .enter) → ∃ s', s.next (t, .run) = some s' ∧ s'.ob = s.ob ∧
      s'.hist = [(t, .returned (.wait WAIT_OBJECT_0)), (t, .acquired)] ++ s.hist)

/-- **The event refines the one-bit event** in the state `s`. -/
structure Refines (bManualReset bInitialState : Bool) (s : Single) : Prop where
  /-- The effects so far are a run of the one-bit event. -/
  oneBit : (bit bManualReset bInitialState s.hist).isSome
  /-- The waits that returned success are among these effects. -/
  effective : Effective s.hist
  /-- Auto-reset: between two successful waits there is a `SetEvent`. -/
  oneWaiter : bManualReset = false → SetBetween Succeeds s.hist
  /-- Manual-reset: while the bit is set and no `ResetEvent` runs, waits succeed and consume
  nothing. -/
  afterSet : bManualReset = true → bit bManualReset bInitialState s.hist = some true →
    NotResetting s → WaitsSucceed s
  /-- Between a `ResetEvent` and a later successful wait there is a `SetEvent`. -/
  afterReset : SetBetween (· = .reset) s.hist

/-- The invariant of manual-reset events. -/
structure Manual (bInitialState : Bool) (s : Single) : Prop where
  base : Base true s
  bit : ∃ v, bit true bInitialState s.hist = some v ∧ (v = false → s.ob.tokens = 0) ∧
    (v = true → 0 < s.ob.tokens ∨ ∃ t, stage true s t = .resetting)

theorem manual_created (i : Bool) : Manual i (created true i) := by
  refine ⟨base_created true i, i, rfl, ?_, ?_⟩
  · rintro rfl; rfl
  · rintro rfl; exact .inl Nat.zero_lt_one

theorem Manual.next {s s' : Single} {l : Label} (hI : Manual i s) (h : s.next l = some s') :
    Manual i s' := by
  refine ⟨hI.base.next h, ?_⟩
  obtain ⟨st, es, hstep, hst, hh⟩ := step_of_next hI.base.fits h
  obtain ⟨-, v, hv, hfalse, htrue⟩ := hI
  generalize hs₀ : stage true s l.1 = st₀ at hstep
  generalize hob : s'.ob = ob' at hstep
  rw [hh]
  cases hstep with
  | idle | startReset | resetTake _ => refine ⟨v, hv, ?_, ?_⟩ <;> grind
  | fail r _ | done | recheck | drained r _ =>
    refine ⟨v, by simp [bit_cons, hv, oneBit], ?_, ?_⟩ <;> grind
  | set => exact ⟨true, by simp [bit_cons, hv, oneBit], by grind, by grind [Obj.writeSignal]⟩
  | pass _ ht =>
    obtain rfl : v = true := by grind
    exact ⟨true, by simp [bit_cons, hv, oneBit], by grind, by grind⟩
  | take hb _ | drain hb _ => cases hb
  | resetDone ht => exact ⟨false, by simp [bit_cons, hv, oneBit], by grind, by grind⟩

/-- A wait on a signalled manual-reset event succeeds with its next two steps. -/
theorem waitsSucceed {s : Single} (hk : s.ob.data.kind = .event true) (ht : 0 < s.ob.tokens) :
    WaitsSucceed s := by
  have hd : s.ob.data = .event true := by
    cases hd : s.ob.data <;> simp_all [Data.kind]
  have hready : s.ob.ready = true := decide_eq_true ht
  have hman : s.ob.manualReset = true := by rw [Obj.manualReset, hk]; rfl
  have henter : ∀ (s₁ : Single) (t : Tid), s₁.ob = s.ob → s₁.op t = some (.wait .enter) →
      ∃ s', s₁.next (t, .run) = some s' ∧ s'.ob = s₁.ob ∧
        s'.hist = [(t, .returned (.wait WAIT_OBJECT_0)), (t, .acquired)] ++ s₁.hist := by
    intro s₁ t hob hop
    have hact : (Op.wait .enter).act t s₁.ob .run =
        some (s₁.ob, .ret (.wait WAIT_OBJECT_0), [.acquired]) := by
      simp [Op.act, Op.step, WaitDone.step, hob, hd, Op.ofWaitDone]
    exact ⟨_, Single.next_of_act hop hact, rfl, rfl⟩
  refine fun t => ⟨fun hop => ⟨?_, ?_⟩, henter s t rfl⟩
  · simp [Single.next, hop, Op.act, hready]
  · have hact : Op.select.act t s.ob .run = some (s.ob, .more (.wait .enter), [.passed]) := by
      simp [Op.act, Op.step, hready, hman]
    have h₁ := Single.next_of_act hop hact
    obtain ⟨s', hs', hob, hh⟩ := henter ⟨s.ob, Function.update s.op t (some (.wait .enter)),
      (t, .passed) :: s.hist⟩ t rfl (by simp)
    exact ⟨s', LTS.run_cons_eq_some.2 ⟨_, h₁, LTS.run_cons_eq_some.2 ⟨_, hs', rfl⟩⟩, hob, hh⟩

theorem Manual.refines {s : Single} (h : Manual i s) : Refines true i s := by
  obtain ⟨v, hv, hfalse, htrue⟩ := h.bit
  have hsome := Option.isSome_of_eq_some hv
  refine ⟨hsome, h.base.effective, nofun, fun _ hbit hres => ?_, ?_⟩
  · obtain rfl : v = true := Option.some.inj (hv.symm.trans hbit)
    refine waitsSucceed h.base.fits.kind ((htrue rfl).resolve_right ?_)
    rintro ⟨t, ht⟩
    obtain ⟨n, hn⟩ := op_eq_resetEvent ht
    exact hres t n hn
  · exact setBetween_of_bit (by rintro e v w rfl hw; exact (Option.some.inj hw).symm) hsome

/-- **A manual-reset event refines the one-bit event** in every interleaving. -/
theorem manual_refines {s : Single} (h : Single.lts.Reachable (created true i) s) :
    Refines true i s :=
  (h.invariant (manual_created i) fun _ _ _ hI hn => hI.next hn).refines

/-! ### Auto-reset events -/

/-- The wait that took the bit last, if it has not been set since. -/
def lastTook : List (Tid × Ev) → Option Tid
  | [] => none
  | (t, .took) :: _ => some t
  | (_, .set) :: _ => none
  | _ :: h => lastTook h

/-- The step does not take a first byte out of the pipe while the wait that took the bit last,
with no `SetEvent` since, is still emptying the pipe. -/
def DrainsAlone (s : Single) (l : Label) : Prop :=
  ∀ op t, s.op l.1 = some op → isFirstRead op = true → 0 < s.ob.tokens →
    lastTook s.hist = some t → stage false s t ≠ .draining

/-- The invariant of the runs of auto-reset events in which waits drain alone. -/
structure Auto (bInitialState : Bool) (s : Single) : Prop where
  base : Base false s
  bit : ∃ v, bit false bInitialState s.hist = some v ∧
    (v = false → s.ob.tokens = 0 ∨
      ∃ t, lastTook s.hist = some t ∧ stage false s t = .draining) ∧
    (∀ t, lastTook s.hist = some t → v = false)

theorem auto_created (i : Bool) : Auto i (created false i) := by
  refine ⟨base_created false i, i, rfl, ?_, nofun⟩
  rintro rfl
  exact .inl rfl

theorem isFirstRead_of_act {t : Tid} {ob ob' : Obj} {op : Op} {a : Act} {r : Op.Res}
    {evs : List Ev} (h : op.act t ob a = some (ob', r, evs)) (ht : Ev.took ∈ evs) :
    isFirstRead op = true := by
  have hw : ∀ w r, WaitDone.step t ob w = some (ob', r, evs) → w = .enter ∨ w = .drain 0 := by
    intro w r hw
    cases w <;> simp only [WaitDone.step] at hw <;> grind [WaitDone.drainStep]
  cases a with
  | run =>
    cases op with
    | wait w | recheck w =>
      obtain ⟨⟨_, _, _⟩, hx, he⟩ := Option.map_eq_some_iff.1 h
      cases he
      rcases hw w _ hx with rfl | rfl <;> rfl
    | _ => grind [Op.act, Op.step]
  | _ => cases op <;> grind [Op.act]

theorem isFirstRead_of_took {s s' : Single} {l : Label} (h : s.next l = some s')
    (hh : s'.hist = (l.1, .took) :: s.hist) :
    ∃ op, s.op l.1 = some op ∧ isFirstRead op = true := by
  rcases Single.next_cases h with ⟨op, -, -, -, rfl⟩ | ⟨op, ob', r, evs, hop, hact, rfl⟩
  · exact absurd hh (List.cons_ne_self _ _).symm
  · refine ⟨op, hop, isFirstRead_of_act hact ?_⟩
    have hmem : Ev.took ∈ (Single.tag l.1 r evs).map Prod.snd := by
      have happ : Single.tag l.1 r evs ++ s.hist = [(l.1, .took)] ++ s.hist := hh
      simp [List.append_cancel_right happ]
    cases r <;> simpa [Single.tag, Op.Res.evs] using hmem

theorem took_of_isFirstRead {s s' : Single} {l : Label} {op : Op} (hs : s.Fits (.event false))
    (hop : s.op l.1 = some op) (hfirst : isFirstRead op = true) (ht : 0 < s.ob.tokens)
    (h : s.next l = some s') : s'.hist = (l.1, .took) :: s.hist := by
  rcases Single.next_cases h with ⟨op', -, hno, -, -⟩ | ⟨op', ob', r, evs, hop', hact, rfl⟩
  · rw [hop] at hno; cases hno
  · obtain rfl : op = op' := Option.some.inj (hop.symm.trans hop')
    have hd : s.ob.data = .event false := by
      have := hs.kind
      cases hd : s.ob.data <;> simp_all [Data.kind]
    have hrun : l.2 = .run := by
      unfold isFirstRead at hfirst
      split at hfirst <;> cases hl : l.2 <;> simp_all [Op.act]
    rw [hrun] at hact
    unfold isFirstRead at hfirst
    split at hfirst <;> simp [Op.act, Op.step, WaitDone.step, hd, WaitDone.drainStep,
      Obj.readSignal, ht, Op.ofWaitDone, Op.ofRecheck] at hact hfirst <;>
      obtain ⟨-, rfl, rfl⟩ := hact <;> rfl

theorem Auto.next {s s' : Single} {l : Label} (hI : Auto i s) (hG : DrainsAlone s l)
    (h : s.next l = some s') : Auto i s' := by
  refine ⟨hI.base.next h, ?_⟩
  obtain ⟨st, es, hstep, hst, hh⟩ := step_of_next hI.base.fits h
  obtain ⟨-, v, hv, hfalse, htrue⟩ := hI
  have htook := isFirstRead_of_took h
  generalize hs₀ : stage false s l.1 = st₀ at hstep
  generalize hob : s'.ob = ob' at hstep
  cases hstep with
  | idle | startReset | resetTake _ | drain _ _ =>
    rw [List.map_nil, List.nil_append] at hh
    rw [hh]
    refine ⟨v, hv, ?_, ?_⟩ <;> grind
  | fail r _ | done | recheck | drained r _ =>
    rw [hh]
    refine ⟨v, by simp [bit_cons, hv, oneBit], ?_, ?_⟩ <;> grind [lastTook]
  | set =>
    rw [hh]
    exact ⟨true, by simp [bit_cons, hv, oneBit], by grind, by grind [lastTook]⟩
  | pass hb _ => cases hb
  | take _ ht =>
    obtain ⟨op, hop, hfirst⟩ := htook hh
    obtain rfl : v = true := by
      grind [DrainsAlone]
    rw [hh]
    exact ⟨false, by simp [bit_cons, hv, oneBit], by grind [lastTook], by grind⟩
  | resetDone ht =>
    rw [hh]
    exact ⟨false, by simp [bit_cons, hv, oneBit], by grind, by grind⟩

theorem Auto.refines {s : Single} (h : Auto i s) : Refines false i s := by
  obtain ⟨v, hv, -⟩ := h.bit
  have hsome := Option.isSome_of_eq_some hv
  refine ⟨hsome, h.base.effective, fun _ => ?_, nofun, ?_⟩
  · refine setBetween_of_bit ?_ hsome
    rintro e v w (rfl | rfl) hw <;> cases v <;> cases hw <;> rfl
  · exact setBetween_of_bit (by rintro e v w rfl hw; exact (Option.some.inj hw).symm) hsome

/-- A wait that joins the draining of the bit's owner leaves the one-bit event. -/
theorem drainsAlone_of_refines {s s' : Single} {l : Label} (hI : Auto i s)
    (h : s.next l = some s') (hR : Refines false i s') : DrainsAlone s l := by
  intro op t hop hfirst ht hlast hdrain
  obtain ⟨v, hv, -, hlastv⟩ := hI.bit
  obtain rfl := hlastv t hlast
  have hbit := hR.oneBit
  rw [took_of_isFirstRead hI.base.fits hop hfirst ht h, bit_cons, hv] at hbit
  cases hbit

theorem drainsAlone_of_manual {s : Single} {l : Label} (hI : Manual i s) : DrainsAlone s l := by
  intro op t _ _ _ _ hdrain
  cases hop : s.op t with
  | none => simp [stage, hop] at hdrain
  | some op =>
    have hf := hI.base.fits.op t op hop
    simp only [stage, hop, Option.map_some, Option.getD_some] at hdrain
    unfold stageOf at hdrain
    split at hdrain <;> simp_all [Op.fits, WaitDone.fits, Kind.autoReset]

/-- **An event refines the one-bit event exactly in the runs in which waits drain alone**: manual-
or auto-reset, initially signalled or not, any number of threads, any interleaving. -/
theorem refines_iff (bManualReset bInitialState : Bool) (ls : List Label) :
    Single.lts.AllStates (Refines bManualReset bInitialState)
        (created bManualReset bInitialState) ls ↔
      Single.lts.AllSteps DrainsAlone (created bManualReset bInitialState) ls := by
  cases bManualReset with
  | true =>
    exact LTS.allStates_iff_allSteps (I := Manual bInitialState) (fun _ => Manual.refines)
      (fun _ _ _ hI _ hn => hI.next hn) (fun _ _ _ hI _ _ => drainsAlone_of_manual hI)
      (manual_created bInitialState)
  | false =>
    exact LTS.allStates_iff_allSteps (I := Auto bInitialState) (fun _ => Auto.refines)
      (fun _ _ _ hI hG hn => hI.next hG hn)
      (fun _ _ _ hI hn hR => drainsAlone_of_refines hI hn hR) (auto_created bInitialState)

/-- Two `SetEvent`s, then two waits, each of which takes one of the two bytes. -/
def sharedBytes : List Label :=
  [(1, .start .setEvent), (1, .run), (1, .start .setEvent), (1, .run),
    (2, .start .select), (2, .run), (2, .run), (3, .start .select), (3, .run), (3, .run),
    (2, .run), (3, .run)]

/-- **One signalled auto-reset event can release two waiters.** -/
theorem two_waiters : ∃ s, Single.lts.run (created false false) sharedBytes = some s ∧
    s.hist.count (2, .returned (.wait WAIT_OBJECT_0)) = 1 ∧
    s.hist.count (3, .returned (.wait WAIT_OBJECT_0)) = 1 ∧
    ¬ SetBetween Succeeds s.hist ∧ ¬ Refines false false s := by
  refine ⟨_, rfl, by decide, by decide, ?_, fun h => absurd h.oneBit (by decide)⟩
  intro h
  obtain ⟨v, hv⟩ := h [_, _, _, _] [] _ 2 3 .took .took (.inl rfl) (.inl rfl) rfl
  cases hv

end Event

end Sync

end Swinx
