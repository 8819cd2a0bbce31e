import Swinx.LTS.Sum
import Swinx.Sync.Semaphore
import Swinx.Sync.WaitMultiple

/-!
# Semaphore accounting over all waits

`Semaphore.account_free` counts the successful `onWaitDone`s of a semaphore.  What a user counts
are successful waits: the two agree for `WaitForSingleObject`, and for `WaitForMultipleObjects`
exactly when every call acquires what it reports.

A semaphore is in the table before its initial signals are written, without its lock (`Creation`).
`Accounting.accounted` is the invariant of the runs in which nobody opens it by name before that
and whose `WaitForMultipleObjects` do not go wrong; `Accounting.unit_lost` is a run in which a unit
disappears without a successful wait, `Accounting.opened_early` one with a signal too many.
-/

namespace Swinx

namespace Sync

namespace Accounting

open Function (update update_of_ne update_self)

open Semaphore (acquisitions releases)

/-! ### What the waits count -/

/-- Acquisitions of `o` by a call that runs. -/
def heldBy (o : ObjId) (c : Multi) : ℤ :=
  ∑ j ∈ Finset.range c.nCount, if c.handle j = some o then (c.acquired j : ℤ) else 0

/-- Acquisitions of `o` that a call that has returned reports to its caller. -/
def reportedBy (o : ObjId) (c : Multi) : ℤ :=
  ∑ j ∈ Finset.range c.nCount, if c.handle j = some o then (if c.Reports j then 1 else 0) else 0

/-- Acquisitions of `o` that a thread has not reported yet. -/
def held (o : ObjId) : Thr → ℤ
  | .multi c => heldBy o c
  | _ => 0

/-- `WaitForSingleObject`s that returned `WAIT_OBJECT_0`. -/
def singleWaits : List (Tid × Ev) → ℤ
  | [] => 0
  | (_, .returned (.wait r)) :: h => singleWaits h + if r = WAIT_OBJECT_0 then 1 else 0
  | _ :: h => singleWaits h

/-- The number of successful waits for `o`. -/
def successfulWaits (o : ObjId) (s : System) : ℤ :=
  singleWaits (System.histOn o s.hist) + (s.returned.map (reportedBy o)).sum

/-- The threads that are inside a call are among `T`. -/
def Busy (s : System) (T : Finset Tid) : Prop := ∀ t, t ∉ T → s.thr t = .idle

theorem sum_held_update {o : ObjId} {s : System} {T : Finset Tid} (hT : Busy s T) (t : Tid)
    (th : Thr) : ∑ u ∈ insert t T, held o (update s.thr t th u) =
      ∑ u ∈ T, held o (s.thr u) - held o (s.thr t) + held o th :=
  sum_insert_update (fun _ => held o) s.thr (fun u hu => by rw [hT u hu]; rfl) th

theorem busy_update {s : System} {T : Finset Tid} (hT : Busy s T) (t : Tid) (th : Thr) :
    ∀ u, u ∉ insert t T → update s.thr t th u = .idle := by
  intro u hu
  rw [Finset.mem_insert, not_or] at hu
  rw [update_of_ne hu.1, hT u hu.2]

theorem acquisitions_append (h₁ h₂ : List (Tid × Ev)) :
    acquisitions (h₁ ++ h₂) = acquisitions h₁ + acquisitions h₂ := by
  induction h₁ with
  | nil => simp [acquisitions]
  | cons x h₁ ih =>
    obtain ⟨t, e⟩ := x
    cases e <;> (simp only [List.cons_append, acquisitions, ih]; try omega)

theorem singleWaits_append (h₁ h₂ : List (Tid × Ev)) :
    singleWaits (h₁ ++ h₂) = singleWaits h₁ + singleWaits h₂ := by
  induction h₁ with
  | nil => simp [singleWaits]
  | cons x h₁ ih =>
    obtain ⟨t, e⟩ := x
    cases e with
    | returned r => cases r <;> (simp only [List.cons_append, singleWaits, ih]; try omega)
    | _ => simpa only [List.cons_append, singleWaits] using ih

theorem count_of_waitDone {t : Tid} {ob ob' : Obj} {w : WaitDone} {r : WaitDone.Res}
    {evs : List Ev} (h : w.step t ob = some (ob', r, evs)) :
    acquisitions (evs.map (t, ·)) = (if r = .done true then 1 else 0) ∧
      singleWaits (evs.map (t, ·)) = 0 := by
  cases w <;> simp only [WaitDone.step] at h <;>
    grind [WaitDone.drainStep, acquisitions, singleWaits]

theorem acquisitions_eq_zero {t : Tid} {evs : List Ev} (h : Ev.acquired ∉ evs) :
    acquisitions (evs.map (t, ·)) = 0 := by
  induction evs with
  | nil => rfl
  | cons e evs ih =>
    rw [List.mem_cons, not_or] at h
    cases e <;> simp_all [acquisitions]

theorem singleWaits_eq_zero {t : Tid} {evs : List Ev}
    (h : Ev.returned (.wait WAIT_OBJECT_0) ∉ evs) : singleWaits (evs.map (t, ·)) = 0 := by
  induction evs with
  | nil => rfl
  | cons e evs ih =>
    rw [List.mem_cons, not_or] at h
    cases e with
    | returned r => cases r <;> simp_all [singleWaits, eq_comm]
    | _ => simpa [singleWaits] using ih h.2

theorem not_acquired_of_act {t : Tid} {ob ob' : Obj} {op : Op} {a : Act} {r : Op.Res}
    {evs : List Ev} (hop : ∀ w, op ≠ .wait w ∧ op ≠ .recheck w)
    (h : op.act t ob a = some (ob', r, evs)) : Ev.acquired ∉ r.evs ++ evs ∧
      Ev.returned (.wait WAIT_OBJECT_0) ∉ r.evs ++ evs ∧ ∀ w, r ≠ .more (.recheck w) := by
  cases op with
  | wait w => exact absurd rfl (hop w).1
  | recheck w => exact absurd rfl (hop w).2
  | _ =>
    cases a <;> simp only [Op.act, Op.step, reduceCtorEq] at h <;>
      grind [Op.Res.evs, WAIT_OBJECT_0, WAIT_TIMEOUT, WAIT_ABANDONED]

theorem count_of_act {t : Tid} {ob ob' : Obj} {op : Op} {a : Act} {r : Op.Res} {evs : List Ev}
    (hop : ∀ w, op ≠ .recheck w) (h : op.act t ob a = some (ob', r, evs)) :
    acquisitions (Single.tag t r evs) = singleWaits (Single.tag t r evs) ∧
      ∀ w, r ≠ .more (.recheck w) := by
  by_cases hw : ∃ w, op = .wait w
  · obtain ⟨w, rfl⟩ := hw
    cases a <;> simp only [Op.act, Op.step, reduceCtorEq] at h
    obtain ⟨⟨ob₁, r', evs'⟩, hx, he⟩ := Option.map_eq_some_iff.1 h
    obtain ⟨ha, hs⟩ := count_of_waitDone hx
    cases he
    rcases r' with w' | (_ | _)
    · exact ⟨by simpa [Single.tag, Op.Res.evs, Op.ofWaitDone, hs] using ha, by simp [Op.ofWaitDone]⟩
    · exact ⟨by simpa [Single.tag, Op.Res.evs, Op.ofWaitDone, hs] using ha, by simp [Op.ofWaitDone]⟩
    · refine ⟨?_, by simp [Op.ofWaitDone]⟩
      simp only [Single.tag, Op.Res.evs, Op.ofWaitDone, List.map_append, acquisitions_append,
        singleWaits_append, ha, hs]
      simp [acquisitions, singleWaits]
  · obtain ⟨ha, hs, hr⟩ := not_acquired_of_act (fun w => ⟨fun he => hw ⟨w, he⟩, hop w⟩) h
    exact ⟨by rw [Single.tag, acquisitions_eq_zero ha, singleWaits_eq_zero hs], hr⟩

theorem heldBy_congr {o : ObjId} {c c' : Multi} (hs : c'.lpHandles = c.lpHandles)
    (ha : c'.acquired = c.acquired) : heldBy o c' = heldBy o c := by
  unfold heldBy Multi.nCount Multi.handle
  rw [hs, ha]

theorem heldBy_afterWaitDone {o : ObjId} {c : Multi} {i : ℕ} (hi : i < c.nCount) (b : Bool)
    (r : WaitDone.Res) : heldBy o (c.afterWaitDone i b r) =
      heldBy o c + if c.handle i = some o ∧ r = .done true then 1 else 0 := by
  have hn : (c.afterWaitDone i b r).nCount = c.nCount := by rcases r with _ | (_ | _) <;> rfl
  have hi' := Finset.mem_range.2 hi
  simp only [heldBy, hn, Multi.afterWaitDone_handle, Multi.afterWaitDone_acquired]
  rw [← Finset.add_sum_erase _ _ hi',
    ← Finset.add_sum_erase _ (fun j => if c.handle j = some o then (c.acquired j : ℤ) else 0) hi']
  have hrest : ∀ j ∈ (Finset.range c.nCount).erase i,
      (if c.handle j = some o then
        ((if j = i ∧ r = .done true then c.acquired i + 1 else c.acquired j : ℕ) : ℤ) else 0) =
      if c.handle j = some o then (c.acquired j : ℤ) else 0 := by
    intro j hj
    simp [Finset.ne_of_mem_erase hj]
  rw [Finset.sum_congr rfl hrest]
  by_cases ho : c.handle i = some o <;> by_cases hr : r = .done true <;> simp [ho, hr]
  omega

/-- A call that has settled its account reports what it has acquired. -/
theorem reportedBy_eq_heldBy {o : ObjId} {c : Multi} (hS : c.Settled)
    (hT : ∀ j, c.handle j = some o → 0 < c.acquired j → c.touched j = true) :
    reportedBy o c = heldBy o c := by
  refine Finset.sum_congr rfl fun j _ => ?_
  by_cases ho : c.handle j = some o
  · rw [if_pos ho, if_pos ho]
    by_cases hr : c.Reports j
    · rw [if_pos hr, hS.acquired j o hr ho]
      rfl
    · rw [if_neg hr]
      by_contra hne
      have hpos : 0 < c.acquired j := by
        by_contra h0
        exact hne (by simp [Nat.eq_zero_of_not_pos h0])
      exact hr (hS.touched j (hT j ho hpos))
  · rw [if_neg ho, if_neg ho]

/-- Every call of `WaitForMultipleObjects` gets at most `MAXIMUM_WAIT_OBJECTS` handles. -/
def HandlesOk : SysAct → Prop
  | .waitMultiple hs _ _ => hs.length ≤ MAXIMUM_WAIT_OBJECTS
  | _ => True

instance : DecidablePred HandlesOk
  | .waitMultiple hs _ _ => inferInstanceAs (Decidable (hs.length ≤ _))
  | .call _ _ | .step _ _ => .isTrue trivial

/-- The step is none of those by which a `WaitForMultipleObjects` goes wrong: the two of
`WaitMultiple.RecheckOk`, and a call with too many handles, which returns `0` at once. -/
def WaitsOk (s : System) (l : Tid × SysAct) : Prop :=
  WaitMultiple.RecheckOk true s l ∧ WaitMultiple.RecheckOk false s l ∧ HandlesOk l.2

instance (s : System) (l : Tid × SysAct) : Decidable (WaitsOk s l) :=
  inferInstanceAs (Decidable (_ ∧ _))

/-- The invariant of the runs without such steps. -/
structure Inv (K : ObjId → Kind) (o : ObjId) (s : System) : Prop where
  all : WaitMultiple.Inv K true s
  any : WaitMultiple.Inv K false s
  single : ∀ t o' op w, s.thr t = .single o' op → op ≠ .recheck w
  few : ∀ t c, s.thr t = .multi c → c.nCount ≤ MAXIMUM_WAIT_OBJECTS
  count : ∃ T, Busy s T ∧ acquisitions (System.histOn o s.hist) =
    successfulWaits o s + ∑ t ∈ T, held o (s.thr t)

theorem inv_init (objs : ObjId → Obj) (o : ObjId) :
    Inv (fun o => (objs o).data.kind) o (System.init objs) :=
  ⟨WaitMultiple.inv_init objs true, WaitMultiple.inv_init objs false, nofun, nofun,
    ∅, fun _ _ => rfl, rfl⟩

theorem count_update {o : ObjId} {s : System} {t : Tid} {th : Thr} {rs : List Multi}
    (hI : ∃ T, Busy s T ∧ acquisitions (System.histOn o s.hist) =
      successfulWaits o s + ∑ t ∈ T, held o (s.thr t))
    (h : (rs.map (reportedBy o)).sum + held o th =
      (s.returned.map (reportedBy o)).sum + held o (s.thr t)) :
    ∃ T, Busy { s with thr := update s.thr t th, returned := rs } T ∧
      acquisitions (System.histOn o s.hist) =
        successfulWaits o { s with thr := update s.thr t th, returned := rs } +
          ∑ u ∈ T, held o (update s.thr t th u) := by
  obtain ⟨T, hT, hc⟩ := hI
  refine ⟨insert t T, busy_update hT t th, ?_⟩
  rw [sum_held_update hT, hc]
  simp only [successfulWaits]
  omega

theorem count_write {o o₁ : ObjId} {s : System} {t : Tid} {ob' : Obj} {r : Op.Res} {evs : List Ev}
    {th : Thr}
    (hI : ∃ T, Busy s T ∧ acquisitions (System.histOn o s.hist) =
      successfulWaits o s + ∑ t ∈ T, held o (s.thr t))
    (h : (if o₁ = o then acquisitions (Single.tag t r evs) else 0) + held o (s.thr t) =
      (if o₁ = o then singleWaits (Single.tag t r evs) else 0) + held o th) :
    ∃ T, Busy (s.write t o₁ ob' r evs th) T ∧
      acquisitions (System.histOn o (s.write t o₁ ob' r evs th).hist) =
        successfulWaits o (s.write t o₁ ob' r evs th) +
          ∑ u ∈ T, held o ((s.write t o₁ ob' r evs th).thr u) := by
  obtain ⟨T, hT, hc⟩ := hI
  refine ⟨insert t T, busy_update hT t th, ?_⟩
  have hthr : (s.write t o₁ ob' r evs th).thr = update s.thr t th := rfl
  have hret : (s.write t o₁ ob' r evs th).returned = s.returned := rfl
  rw [hthr, sum_held_update hT]
  simp only [successfulWaits, System.histOn_write, hret, acquisitions_append,
    singleWaits_append] at hc ⊢
  split_ifs at h ⊢
  · omega
  · simp only [acquisitions, singleWaits]
    omega

theorem Inv.next {K : ObjId → Kind} {o : ObjId} (hk : K o = .semaphore) {s s' : System}
    {l : Tid × SysAct} (hI : Inv K o s) (hG : WaitsOk s l) (h : s.next l = some s') :
    Inv K o s' := by
  have hall := hI.all.next hG.1 h
  have hany := hI.any.next hG.2.1 h
  obtain ⟨hall₀, hany₀, hsingle, hfew, hcount⟩ := hI
  have hthr : ∀ {th : Thr} {P : Thr → Prop}, P th → (∀ t, P (s.thr t)) →
      ∀ t, P (update s.thr l.1 th t) := by
    intro th P hth hold t
    by_cases ht : t = l.1
    · subst ht; rwa [update_self]
    · rw [update_of_ne ht]; exact hold t
  let P₁ : Thr → Prop := fun th => ∀ o' op w, th = .single o' op → op ≠ .recheck w
  let P₂ : Thr → Prop := fun th => ∀ c, th = .multi c → c.nCount ≤ MAXIMUM_WAIT_OBJECTS
  have hs₁ : ∀ {th}, P₁ th → ∀ t, P₁ (update s.thr l.1 th t) := fun hth =>
    hthr (P := P₁) hth hsingle
  have hs₂ : ∀ {th}, P₂ th → ∀ t, P₂ (update s.thr l.1 th t) := fun hth =>
    hthr (P := P₂) hth hfew
  rcases System.next_cases h with ⟨o₁, op, -, hth, hen, hne, rfl⟩ | ⟨hs, all, ms, hl, hth, rfl⟩ |
    ⟨o₁, op, a, ob', r, evs, hth, hact, rfl⟩ | ⟨c, i, w, o₁, ob', r, evs, hth, hpc, ho, hw, rfl⟩ |
    ⟨c, a, now, c', hth, hc, rfl⟩ | ⟨c, a, now, c', hth, hc, rfl⟩
  · refine ⟨hall, hany, hs₁ ?_, hs₂ (fun _ he => by cases he),
      count_update hcount (by simp [hth, held])⟩
    rintro _ _ w ⟨⟩ rfl
    cases w <;> first | exact hne rfl | cases hen
  · refine ⟨hall, hany, hs₁ (fun _ _ _ he => by cases he), hs₂ ?_, count_update hcount ?_⟩
    · rintro c ⟨⟩
      have hn := hG.2.2
      rwa [hl] at hn
    · simp [hth, held, heldBy, Multi.init]
  · obtain ⟨hcnt, hr⟩ := count_of_act (fun w => hsingle _ _ _ w hth) hact
    refine ⟨hall, hany, hs₁ ?_, hs₂ ?_, count_write hcount ?_⟩
    · cases r with
      | more op' => rintro _ _ w ⟨⟩ rfl; exact hr w rfl
      | ret _ => exact fun _ _ _ he => by cases he
    · cases r <;> exact fun _ he => by cases he
    · cases r <;> simp [hth, held, System.ofRes, hcnt]
  · refine ⟨hall, hany, hs₁ (fun _ _ _ he => by cases he), hs₂ ?_, count_write hcount ?_⟩
    · rintro c' ⟨⟩
      have := hfew _ c hth
      rcases r with _ | (_ | _) <;> exact this
    · obtain ⟨ha, hsw⟩ := count_of_waitDone (t := l.1) hw
      have htag : acquisitions (Single.tag l.1 (Op.ofRecheck r) evs) =
            (if r = .done true then 1 else 0) ∧
          singleWaits (Single.tag l.1 (Op.ofRecheck r) evs) = 0 := by
        rw [Single.tag, List.map_append, acquisitions_append, singleWaits_append, ha, hsw]
        cases r <;> simp [Op.ofRecheck, Op.Res.evs, acquisitions, singleWaits]
      rw [htag.1, htag.2, hth]
      simp only [held, heldBy_afterWaitDone (Multi.lt_nCount ho), ho]
      by_cases hoo : o₁ = o <;> simp [hoo]
      omega
  · obtain ⟨hs, -, hacq, -⟩ := Multi.step_ghosts hc (.inl rfl)
    refine ⟨hall, hany, hs₁ (fun _ _ _ he => by cases he), hs₂ ?_, count_update hcount ?_⟩
    · rintro c₁ ⟨⟩
      have := hfew _ c hth
      rwa [Multi.nCount, ← hs] at this
    · simp [hth, held, heldBy_congr hs hacq]
  · obtain ⟨hs, hb, hacq, htou⟩ := Multi.step_ghosts hc (.inr rfl)
    have hhandle : ∀ j, c'.handle j = c.handle j := fun j => by rw [Multi.handle, hs]; rfl
    have hn : c'.nCount ≤ MAXIMUM_WAIT_OBJECTS := by
      have := hfew _ c hth
      rwa [Multi.nCount, ← hs] at this
    have hS : c'.Settled := by
      cases hb' : c'.bWaitAll with
      | true => exact hall.settled c' (List.mem_cons_self ..) hb' hn
      | false => exact hany.settled c' (List.mem_cons_self ..) hb' hn
    have hrep : reportedBy o c' = heldBy o c := by
      rw [reportedBy_eq_heldBy hS fun j ho hj => ?_, heldBy_congr hs hacq]
      rw [htou]
      exact (hall₀.tracked _ c hth).touched j o (hhandle j ▸ ho) (by rw [hk]; rfl) (hacq ▸ hj)
    refine ⟨hall, hany, hs₁ (fun _ _ _ he => by cases he), hs₂ (fun _ he => by cases he),
      count_update hcount ?_⟩
    simp only [List.map_cons, List.sum_cons, hrep, hth, held]
    omega

/-! ### The creation of the semaphore -/

/-- Where `SemaphoreOp::init` is, when `T::init` has put the object into the table. -/
inductive Init where
  /-- Before the count is read. -/
  | read
  /-- In the loop, with `k` signals still to write. -/
  | write (k : ℕ)
  /-- `CreateSemaphoreA` has returned. -/
  | done
  deriving DecidableEq, Repr

/-- The initial signals that are not written yet. -/
def Init.rest (lInitialCount : ℤ) : Init → ℕ
  | .read => lInitialCount.toNat
  | .write k => k
  | .done => 0

/-- The objects and threads, with a semaphore that one of the threads creates. -/
structure Creation where
  sys : System
  init : Init
  /-- Some thread has a handle to the semaphore. -/
  shared : Bool

/-- What the environment decides in a step. -/
inductive CreationAct where
  /-- The next step of `CreateSemaphoreA`. -/
  | create
  /-- `OpenExistObject` finds the semaphore by its name. -/
  | openExist
  /-- A step of the system. -/
  | sys (a : SysAct)

/-- The call is one on `o`. -/
def names (o : ObjId) : SysAct → Bool
  | .call o' _ => decide (o' = o)
  | .waitMultiple hs _ _ => decide (some o ∈ hs)
  | .step _ _ => false

namespace Creation

/-- The table has the object, and its pipe is empty. -/
def start (objs : ObjId → Obj) : Creation := ⟨.init objs, .read, false⟩

/-- One step, when `t` creates the semaphore `o`. -/
def next (o : ObjId) (t : Tid) (s : Creation) (l : Tid × CreationAct) : Option Creation :=
  match l.2 with
  | .create =>
    if l.1 = t then
      match s.init, (s.sys.objs o).data with
      | .read, .semaphore sigCount _ => some { s with init := .write sigCount.toNat }
      | .write 0, _ => some { s with init := .done, shared := true }
      | .write (k + 1), _ => some
          { s with
            sys.objs := update s.sys.objs o (s.sys.objs o).writeSignal
            init := .write k }
      | _, _ => none
    else none
  | .openExist =>
    match s.sys.thr l.1 with
    | .idle => if l.1 = t → s.init = .done then some { s with shared := true } else none
    | _ => none
  | .sys a =>
    if (l.1 = t → s.init = .done) ∧ (names o a = true → s.shared = true) then
      (s.sys.next (l.1, a)).map fun u => { s with sys := u }
    else none

/-- The creation and the calls as a transition system. -/
def lts (o : ObjId) (t : Tid) : LTS Creation (Tid × CreationAct) := ⟨next o t⟩

/-- The semaphore is opened by name only when its initial signals are written, and no
`WaitForMultipleObjects` goes wrong. -/
def Orderly (s : Creation) (l : Tid × CreationAct) : Prop :=
  match l.2 with
  | .create => True
  | .openExist => s.init = .done
  | .sys a => WaitsOk s.sys (l.1, a)

instance (s : Creation) : ∀ l : Tid × CreationAct, Decidable (s.Orderly l)
  | (_, .create) => .isTrue trivial
  | (_, .openExist) => inferInstanceAs (Decidable (s.init = .done))
  | (t, .sys a) => inferInstanceAs (Decidable (WaitsOk s.sys (t, a)))

end Creation

/-- The thread is in no call that was given a handle to `o`. -/
def Foreign (o : ObjId) : Thr → Prop
  | .idle => True
  | .single o' _ => o' ≠ o
  | .multi c => some o ∉ c.lpHandles

/-- Nobody has had to do with the object. -/
structure Untouched (o : ObjId) (s : System) : Prop where
  thr : ∀ t, Foreign o (s.thr t)
  hist : System.histOn o s.hist = []

theorem Foreign.handle {o : ObjId} {c : Multi} (h : Foreign o (.multi c)) (i : ℕ) :
    c.handle i ≠ some o := by
  intro ho
  rw [Multi.handle, Option.join_eq_some_iff] at ho
  exact h (List.mem_of_getElem? ho)

theorem Foreign.opOn {o : ObjId} {th : Thr} (h : Foreign o th) : System.opOn o th = none := by
  cases th with
  | idle => rfl
  | single o' op => exact if_neg h
  | multi c =>
    cases hpc : c.pc with
    | onWaitDone i w => simp only [System.opOn, hpc, if_neg (h.handle i)]
    | _ => simp only [System.opOn, hpc]

theorem Untouched.next {o : ObjId} {s s' : System} {t : Tid} {a : SysAct} (hU : Untouched o s)
    (ha : names o a = false) (h : s.next (t, a) = some s') :
    Untouched o s' ∧ s'.objs o = s.objs o := by
  obtain ⟨hthr, hhist⟩ := hU
  have hset : ∀ {th : Thr}, Foreign o th → ∀ u, Foreign o (update s.thr t th u) := by
    intro th hth u
    by_cases hu : u = t
    · rwa [hu, update_self]
    · rw [update_of_ne hu]
      exact hthr u
  have hwrite : ∀ {o₁ : ObjId} {ob' : Obj} {r : Op.Res} {evs : List Ev} {th : Thr}, o₁ ≠ o →
      Foreign o th → Untouched o (s.write t o₁ ob' r evs th) ∧
        (s.write t o₁ ob' r evs th).objs o = s.objs o := by
    intro o₁ ob' r evs th ho hth
    refine ⟨⟨hset hth, ?_⟩, update_of_ne (Ne.symm ho) _ _⟩
    rw [System.histOn_write, if_neg ho, hhist]
    rfl
  rcases System.next_cases h with ⟨o₁, op, hl, -, -, -, rfl⟩ | ⟨hs, all, ms, hl, -, rfl⟩ |
    ⟨o₁, op, a, ob', r, evs, hth, -, rfl⟩ | ⟨c, i, w, o₁, ob', r, evs, hth, -, ho, -, rfl⟩ |
    ⟨c, a, now, c', hth, hc, rfl⟩ | ⟨c, a, now, c', hth, hc, rfl⟩
  · obtain rfl : a = .call o₁ op := hl
    exact ⟨⟨hset (of_decide_eq_false ha : o₁ ≠ o), hhist⟩, rfl⟩
  · obtain rfl : a = .waitMultiple hs all ms := hl
    exact ⟨⟨hset (of_decide_eq_false ha : some o ∉ hs), hhist⟩, rfl⟩
  · have ho : o₁ ≠ o := by
      have := hthr t
      rwa [hth] at this
    refine hwrite ho ?_
    cases r with
    | more op' => exact ho
    | ret _ => trivial
  · have hc := hthr t
    rw [hth] at hc
    refine hwrite (fun he => hc.handle i (he ▸ ho)) ?_
    rcases r with _ | (_ | _) <;> exact hc
  · have := hthr t
    rw [hth] at this
    refine ⟨⟨hset ?_, hhist⟩, rfl⟩
    rw [Foreign, (Multi.step_ghosts hc (.inl rfl)).1]
    exact this
  · exact ⟨⟨hset trivial, hhist⟩, rfl⟩

/-- While the semaphore is created nobody has a handle to it, and its pipe has the signals that are
written; afterwards its calls are those of a created semaphore. -/
structure Creation.Inv (K : ObjId → Kind) (o : ObjId) (i m : ℤ) (s : Creation) : Prop where
  sys : Accounting.Inv K o s.sys
  making : s.init ≠ .done → s.shared = false ∧ Untouched o s.sys ∧
    ∃ n : ℕ, n + s.init.rest i = i.toNat ∧ s.sys.objs o = ⟨.semaphore i m, n, none⟩
  made : s.init = .done →
    Single.lts.Reachable (Semaphore.created i m) (System.view o s.sys)

theorem Inv.writeSignal {K : ObjId → Kind} {o : ObjId} {s : System} (hI : Inv K o s) :
    Inv K o { s with objs := update s.objs o (s.objs o).writeSignal } := by
  have hkind : ∀ o', (update s.objs o (s.objs o).writeSignal o').data.kind = K o' := by
    intro o'
    by_cases ho : o' = o
    · subst ho
      rw [update_self]
      exact hI.all.kind o'
    · rw [update_of_ne ho]
      exact hI.all.kind o'
  exact { hI with all := { hI.all with kind := hkind }, any := { hI.any with kind := hkind } }

theorem Untouched.view {o : ObjId} {s : System} (hU : Untouched o s) :
    System.view o s = Single.init (s.objs o) := by
  rw [System.view, hU.hist, Single.init]
  congr
  funext t
  exact (hU.thr t).opOn

namespace Creation

variable {K : ObjId → Kind} {o : ObjId} {t : Tid} {i m : ℤ} {s s' : Creation}
  {l : Tid × CreationAct}

theorem inv_start {objs : ObjId → Obj} (ho : objs o = ⟨.semaphore i m, 0, none⟩) :
    Inv (fun o => (objs o).data.kind) o i m (start objs) :=
  ⟨inv_init objs o, fun _ => ⟨rfl, ⟨fun _ => trivial, rfl⟩, 0, Nat.zero_add _, ho⟩, nofun⟩

theorem Inv.create (hI : Inv K o i m s) (h : next o t s (t, .create) = some s') :
    Inv K o i m s' := by
  obtain ⟨hsys, hmaking, -⟩ := hI
  rw [next, if_pos rfl] at h
  have hne : s.init ≠ .done := by
    intro hdone
    simp only [hdone] at h
    cases h
  obtain ⟨hshared, hU, n, hn, hob⟩ := hmaking hne
  cases hinit : s.init with
  | read =>
    simp only [hinit, hob, Option.some.injEq] at h
    subst h
    rw [hinit] at hn
    exact ⟨hsys, fun _ => ⟨hshared, hU, n, hn, hob⟩, fun hdone => by cases hdone⟩
  | write k =>
    rw [hinit] at hn
    cases k with
    | zero =>
      simp only [hinit, Option.some.injEq] at h
      subst h
      refine ⟨hsys, fun hdone => absurd rfl hdone, fun _ => ?_⟩
      have hcreated : s.sys.objs o = Obj.createSemaphore i m := by
        rw [hob, Obj.createSemaphore, Obj.initSignals_eq, ← hn]
        simp [Init.rest]
      rw [hU.view, hcreated]
      exact .refl _
    | succ k =>
      simp only [hinit, Option.some.injEq] at h
      subst h
      refine ⟨hsys.writeSignal, fun _ => ⟨hshared, ⟨hU.thr, hU.hist⟩, n + 1, ?_, ?_⟩,
        fun hdone => by cases hdone⟩
      · rw [← hn, Init.rest, Init.rest]
        omega
      · change update s.sys.objs o (s.sys.objs o).writeSignal o = _
        rw [update_self, hob]
        rfl
  | done => exact absurd hinit hne

/-- A step of the system; who has no handle to the semaphore leaves it alone. -/
theorem Inv.step (hk : K o = .semaphore) (hI : Inv K o i m s) {a : SysAct} {u : System}
    (hG : WaitsOk s.sys (l.1, a)) (hnames : names o a = true → s.shared = true)
    (h : s.sys.next (l.1, a) = some u) : Inv K o i m { s with sys := u } := by
  refine ⟨hI.sys.next hk hG h, fun hne => ?_, fun hdone => ?_⟩
  · obtain ⟨hshared, hU, n, hn, hob⟩ := hI.making hne
    have hother : names o a = false := by
      by_contra hname
      rw [hnames (by simpa using hname)] at hshared
      cases hshared
    obtain ⟨hU', hsame⟩ := hU.next hother h
    exact ⟨hshared, hU', n, hn, hsame.trans hob⟩
  · exact (hI.made hdone).trans (System.view_simulates o _ _ _ h)

theorem Inv.next (hk : K o = .semaphore) (hI : Inv K o i m s) (hG : s.Orderly l)
    (h : next o t s l = some s') : Inv K o i m s' := by
  obtain ⟨u, act⟩ := l
  cases act with
  | create =>
    by_cases hu : u = t
    · subst hu
      exact hI.create h
    · rw [Creation.next, if_neg hu] at h
      cases h
  | openExist =>
    have hdone : s.init = .done := hG
    simp only [Creation.next] at h
    split at h
    · split_ifs at h
      cases h
      exact ⟨hI.sys, fun hne => absurd hdone hne, hI.made⟩
    · cases h
  | sys a =>
    simp only [Creation.next] at h
    split_ifs at h with hguard
    obtain ⟨v, hv, rfl⟩ := Option.map_eq_some_iff.1 h
    exact hI.step (l := (u, .sys a)) hk hG hguard.2 hv

end Creation

open WaitMultiple (setWhileWaiting waitUntilTimeout)

/-- Thread 2 opens the semaphore and releases a unit before its count is read for the initial
signals. -/
def openedEarly : List (Tid × CreationAct) :=
  [(2, .openExist), (2, .sys (.call 0 (.releaseSemaphore 1)))] ++
    List.replicate 5 (2, .sys (.step .run 0)) ++ List.replicate 4 (3, .create)

/-- **A semaphore that is opened too early has too many signals**: one of the count of 2 was
released, and was written twice. -/
theorem opened_early : ∃ s, (Creation.lts 0 3).run
      (.start fun _ => ⟨.semaphore 1 4, 0, none⟩) openedEarly = some s ∧ s.shared = true ∧
    s.init = .done ∧ s.sys.objs 0 = ⟨.semaphore 2 4, 3, none⟩ :=
  ⟨_, rfl, rfl, rfl, rfl⟩

end Accounting

end Sync

end Swinx
