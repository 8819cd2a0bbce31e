import Swinx.Sync.Single

/-!
# Accounting of one semaphore

The count of a semaphore lives in two places: the bytes in its pipe and `sigCount`.  All accesses
that change them are made under the object's lock, which `Semaphore.Inv` follows from access to
access.  Whenever the lock is free the two agree, the count is within its bounds, and the
successful `onWaitDone`s and the count add up to what was put in (`Semaphore.Balanced`).
-/

namespace Swinx

namespace Sync

namespace Semaphore

/-! ### What the calls do to a semaphore -/

/-- Where a thread is inside the locked sections. -/
inductive Stage where
  | outside
  /-- `onWaitDone`, lock taken. -/
  | locked
  /-- `onWaitDone`, byte read, count not yet lowered. -/
  | counted
  /-- `onWaitDone`, before `unlock`. -/
  | unlock (ret : Bool)
  /-- `ReleaseSemaphore`, lock taken. -/
  | relTest (n : ℤ)
  /-- `ReleaseSemaphore`, with `k` bytes still to write. -/
  | relWrite (n : ℤ) (k : ℕ)
  /-- `ReleaseSemaphore`, before `unlock`. -/
  | relUnlock (n : ℤ) (raised : Bool)
  deriving DecidableEq, Repr

/-- The stage of a place inside `onWaitDone`. -/
def stageOfWait : WaitDone → Stage
  | .locked => .locked
  | .counted => .counted
  | .unlock ret => .unlock ret
  | _ => .outside

/-- The stage of a place inside a call. -/
def stageOf : Op → Stage
  | .wait w | .recheck w => stageOfWait w
  | .relTest n => .relTest n
  | .relWrite n _ k => .relWrite n k
  | .relUnlock n prev => .relUnlock n prev.isSome
  | _ => .outside

/-- The stage of a thread. -/
def stage (s : Single) (t : Tid) : Stage := ((s.op t).map stageOf).getD .outside

/-- **What a step of `t` does to a semaphore.** -/
inductive Step (t : Tid) (ob : Obj) : Stage → Obj → Stage → List Ev → Prop
  | idle : Step t ob .outside ob .outside []
  | lock : ob.lock = none → Step t ob .outside { ob with lock := some t } .locked []
  | fail : Step t ob .locked ob (.unlock false) []
  | read {sigCount maxSignal : ℤ} : ob.data = .semaphore sigCount maxSignal → 0 < sigCount →
    0 < ob.tokens → Step t ob .locked { ob with tokens := ob.tokens - 1 } .counted []
  | count {sigCount maxSignal : ℤ} : ob.data = .semaphore sigCount maxSignal →
    Step t ob .counted { ob with data := .semaphore (sigCount - 1) maxSignal } (.unlock true) []
  | unlock (ret : Bool) : Step t ob (.unlock ret) { ob with lock := none } .outside
      (if ret then [.acquired] else [])
  | relLock {n : ℤ} : 0 < n → ob.lock = none →
    Step t ob .outside { ob with lock := some t } (.relTest n) []
  | reject {n : ℤ} : Step t ob (.relTest n) ob (.relUnlock n false) []
  | accept {n sigCount maxSignal : ℤ} : ob.data = .semaphore sigCount maxSignal →
    n ≤ maxSignal - sigCount → Step t ob (.relTest n) ob (.relWrite n n.toNat) []
  | write {n : ℤ} {k : ℕ} : 0 < k →
    Step t ob (.relWrite n k) ob.writeSignal (.relWrite n (k - 1)) []
  | raise {n sigCount maxSignal : ℤ} : ob.data = .semaphore sigCount maxSignal →
    Step t ob (.relWrite n 0) { ob with data := .semaphore (sigCount + n) maxSignal }
      (.relUnlock n true) []
  | relUnlock {n : ℤ} (raised : Bool) : Step t ob (.relUnlock n raised) { ob with lock := none }
      .outside (if raised then [.released n] else [])

/-- The stage after a step of `onWaitDone`. -/
def stageOfRes : WaitDone.Res → Stage
  | .more w => stageOfWait w
  | .done _ => .outside

theorem step_of_waitDone {t : Tid} {ob ob' : Obj} {w : WaitDone} {r : WaitDone.Res}
    {evs : List Ev} (hk : ob.data.kind = .semaphore) (hf : w.fits .semaphore = true)
    (h : w.step t ob = some (ob', r, evs)) :
    Step t ob (stageOfWait w) ob' (stageOfRes r) evs := by
  obtain ⟨sc, m, hd⟩ : ∃ sc m, ob.data = .semaphore sc m := by
    cases hd : ob.data <;> simp_all [Data.kind]
  cases ob with | mk data tokens lock =>
  subst hd
  cases w with
  | enter =>
    simp only [WaitDone.step] at h
    split_ifs at h with hl
    cases h
    exact .lock hl
  | locked =>
    simp only [WaitDone.step, Obj.readSignal] at h
    split_ifs at h with hsc ht <;> cases h
    · exact .read rfl hsc ht
    · exact .fail
    · exact .fail
  | counted => cases h; exact .count rfl
  | unlock ret => cases h; exact .unlock ret
  | drain | owner => cases hf

theorem step_of_run {t : Tid} {ob ob' : Obj} {op : Op} {r : Op.Res} {evs : List Ev}
    (hk : ob.data.kind = .semaphore) (hf : op.fits .semaphore = true)
    (h : op.step t ob = some (ob', r, evs)) :
    Step t ob (stageOf op) ob' ((r.toOp.map stageOf).getD .outside) evs := by
  obtain ⟨sc, m, hd⟩ : ∃ sc m, ob.data = .semaphore sc m := by
    cases hd : ob.data <;> simp_all [Data.kind]
  cases op with
  | wait w | recheck w =>
    obtain ⟨⟨_, r', _⟩, hx, he⟩ := Option.map_eq_some_iff.1 h
    have hstep := step_of_waitDone hk hf hx
    cases r' with
    | more w' => cases he; exact hstep
    | done b => cases b <;> cases he <;> exact hstep
  | select =>
    simp only [Op.step, Obj.manualReset, hk, Kind.manualReset, Bool.false_eq_true,
      ↓reduceIte] at h
    split_ifs at h
    cases h
    exact .idle
  | releaseSemaphore n =>
    cases ob with | mk data tokens lock =>
    subst hd
    simp only [Op.step] at h
    split_ifs at h with hn hl <;> cases h
    · exact .idle
    · exact .relLock (by omega) hl
  | relTest n =>
    cases ob with | mk data tokens lock =>
    subst hd
    simp only [Op.step] at h
    split_ifs at h with hn <;> cases h
    · exact .reject
    · exact .accept rfl (by omega)
  | relWrite n prev k =>
    cases ob with | mk data tokens lock =>
    subst hd
    simp only [Op.step] at h
    split_ifs at h with hk0 <;> cases h
    · exact .write hk0
    · obtain rfl : k = 0 := by omega
      exact .raise rfl
  | relUnlock n prev => cases h; exact .relUnlock prev.isSome
  | retry => cases h; exact .idle
  | setEvent | resetEvent | releaseMutex | fireTimer | cancelTimer =>
    simp only [Op.step, hd] at h
    cases h
    exact .idle
  | post | clear => cases hf

theorem step_of_act {t : Tid} {ob ob' : Obj} {op : Op} {a : Act} {r : Op.Res} {evs : List Ev}
    (hk : ob.data.kind = .semaphore) (hf : op.fits .semaphore = true)
    (h : op.act t ob a = some (ob', r, evs)) :
    Step t ob (stageOf op) ob' ((r.toOp.map stageOf).getD .outside) evs := by
  cases a with
  | run => exact step_of_run hk hf h
  | start _ => cases h
  | timeout | error =>
    cases op <;> simp only [Op.act, reduceCtorEq] at h <;> (try split_ifs at h) <;> cases h <;>
      exact .idle

/-! ### Balances -/

/-- Successful `onWaitDone`s. -/
def acquisitions : List (Tid × Ev) → ℤ
  | [] => 0
  | (_, .acquired) :: h => acquisitions h + 1
  | _ :: h => acquisitions h

/-- The sum of the successful release counts. -/
def releases : List (Tid × Ev) → ℤ
  | [] => 0
  | (_, .released n) :: h => releases h + n
  | _ :: h => releases h

/-- A semaphore just created. -/
def created (lInitialCount lMaximumCount : ℤ) : Single :=
  Single.init (Obj.createSemaphore lInitialCount lMaximumCount)

/-- The account at each place inside the locked sections. -/
def Account (i m : ℤ) (st : Stage) (ob : Obj) (h : List (Tid × Ev)) : Prop :=
  ∃ sigCount : ℤ, ob.data = .semaphore sigCount m ∧ 0 ≤ sigCount ∧ sigCount ≤ m ∧
    match st with
    | .counted => 0 < sigCount ∧ ob.tokens + 1 = sigCount ∧
        acquisitions h + sigCount = i + releases h
    | .unlock true => ob.tokens = sigCount ∧ acquisitions h + 1 + sigCount = i + releases h
    | .relTest n => 0 < n ∧ ob.tokens = sigCount ∧ acquisitions h + sigCount = i + releases h
    | .relWrite n k => k ≤ n ∧ sigCount + n ≤ m ∧ ob.tokens = sigCount + (n - k) ∧
        acquisitions h + sigCount = i + releases h
    | .relUnlock n true => ob.tokens = sigCount ∧ acquisitions h + sigCount = i + releases h + n
    | _ => ob.tokens = sigCount ∧ acquisitions h + sigCount = i + releases h

theorem Account.step {i m : ℤ} {t : Tid} {ob ob' : Obj} {st st' : Stage} {es : List Ev}
    {h : List (Tid × Ev)} (hA : Account i m st ob h) (hs : Step t ob st ob' st' es) :
    Account i m st' ob' (es.map (t, ·) ++ h) := by
  obtain ⟨sc, hd, h0, hm, hrest⟩ := hA
  cases hs with
  | idle => exact ⟨sc, hd, h0, hm, hrest⟩
  | lock _ => exact ⟨sc, hd, h0, hm, hrest⟩
  | fail => exact ⟨sc, hd, h0, hm, hrest⟩
  | read hd' hsc ht =>
    obtain ⟨rfl, -⟩ := Data.semaphore.inj (hd'.symm.trans hd)
    exact ⟨_, hd, h0, hm, hsc, by simp; omega, hrest.2⟩
  | count hd' =>
    obtain ⟨rfl, rfl⟩ := Data.semaphore.inj (hd'.symm.trans hd)
    refine ⟨_, rfl, by omega, by omega, ?_, ?_⟩ <;> simp <;> omega
  | unlock ret =>
    cases ret
    · exact ⟨sc, hd, h0, hm, hrest⟩
    · refine ⟨sc, hd, h0, hm, hrest.1, ?_⟩
      simpa [acquisitions, releases] using hrest.2
  | relLock hn _ => exact ⟨sc, hd, h0, hm, hn, hrest⟩
  | reject => exact ⟨sc, hd, h0, hm, hrest.2⟩
  | accept hd' hn =>
    obtain ⟨rfl, rfl⟩ := Data.semaphore.inj (hd'.symm.trans hd)
    refine ⟨_, hd, h0, hm, ?_, ?_, ?_, hrest.2.2⟩ <;> omega
  | write hk =>
    refine ⟨sc, hd, h0, hm, ?_, hrest.2.1, ?_, hrest.2.2.2⟩
    · omega
    · simp; omega
  | raise hd' =>
    obtain ⟨rfl, rfl⟩ := Data.semaphore.inj (hd'.symm.trans hd)
    obtain ⟨hk, hn, ht, hb⟩ := hrest
    refine ⟨_, rfl, by omega, hn, ?_, ?_⟩
    · simpa using ht
    · simp only [List.map_nil, List.nil_append]
      omega
  | relUnlock raised =>
    cases raised
    · exact ⟨sc, hd, h0, hm, hrest⟩
    · refine ⟨sc, hd, h0, hm, hrest.1, ?_⟩
      simp [acquisitions, releases]
      omega

theorem Step.lock_iff {t : Tid} {ob ob' : Obj} {st st' : Stage} {es : List Ev}
    (hs : Step t ob st ob' st' es) (hl : ob.lock = some t ↔ st ≠ .outside) :
    (ob'.lock = some t ↔ st' ≠ .outside) ∧
      (st = .outside → st' ≠ .outside → ob.lock = none) ∧
      (ob'.lock = ob.lock ∨ ob'.lock = none ∨ ob'.lock = some t) := by
  cases hs <;> simp_all

theorem Step.eq_of_outside {t : Tid} {ob ob' : Obj} {es : List Ev}
    (hs : Step t ob .outside ob' .outside es) : ob' = ob ∧ es = [] := by
  cases hs
  exact ⟨rfl, rfl⟩

/-- The invariant of all runs. -/
structure Inv (i m : ℤ) (s : Single) : Prop where
  fits : s.Fits .semaphore
  lock : ∀ t, s.ob.lock = some t ↔ stage s t ≠ .outside
  free : s.ob.lock = none → Account i m .outside s.ob s.hist
  held : ∀ t, s.ob.lock = some t → Account i m (stage s t) s.ob s.hist

theorem inv_created {i m : ℤ} (h0 : 0 ≤ i) (hm : i ≤ m) : Inv i m (created i m) := by
  have hob : (created i m).ob = ⟨.semaphore i m, i.toNat, none⟩ := by
    simp [created, Single.init, Obj.createSemaphore, Obj.initSignals_eq]
  refine ⟨?_, fun t => ?_, fun _ => ?_, fun t ht => ?_⟩
  · exact ⟨by rw [hob]; rfl, nofun⟩
  · rw [hob]
    simp [stage, created, Single.init]
  · rw [hob]
    exact ⟨i, rfl, h0, hm, Int.toNat_of_nonneg h0, by simp [created, Single.init, acquisitions,
      releases]⟩
  · rw [hob] at ht; cases ht

theorem acquisitions_tag (t : Tid) (r : Op.Res) (evs : List Ev) (h : List (Tid × Ev)) :
    acquisitions (Single.tag t r evs ++ h) = acquisitions (evs.map (t, ·) ++ h) := by
  cases r <;> rfl

theorem releases_tag (t : Tid) (r : Op.Res) (evs : List Ev) (h : List (Tid × Ev)) :
    releases (Single.tag t r evs ++ h) = releases (evs.map (t, ·) ++ h) := by
  cases r <;> rfl

theorem stageOf_of_isEntry {op : Op} (h : op.isEntry = true) : stageOf op = .outside := by
  unfold Op.isEntry at h
  split at h <;> simp_all [stageOf, stageOfWait]

theorem step_of_next {s s' : Single} {l : Label} (hs : s.Fits .semaphore)
    (h : s.next l = some s') : ∃ st es, Step l.1 s.ob (stage s l.1) s'.ob st es ∧
      (∀ u, stage s' u = if u = l.1 then st else stage s u) ∧
      acquisitions s'.hist = acquisitions (es.map (l.1, ·) ++ s.hist) ∧
      releases s'.hist = releases (es.map (l.1, ·) ++ s.hist) := by
  rcases Single.next_cases h with ⟨op, -, hop, hen, rfl⟩ | ⟨op, ob', r, evs, hop, hact, rfl⟩
  · have hst : stage s l.1 = .outside := by simp [stage, hop]
    refine ⟨.outside, [], by rw [hst]; exact .idle, fun u => ?_, rfl, rfl⟩
    split_ifs with hu
    · subst hu
      simp [stage, stageOf_of_isEntry hen]
    · simp [stage, hu]
  · have hst : stage s l.1 = stageOf op := by simp [stage, hop]
    refine ⟨_, evs, hst ▸ step_of_act hs.kind (hs.op _ _ hop) hact, fun u => ?_,
      acquisitions_tag _ _ _ _, releases_tag _ _ _ _⟩
    split_ifs with hu
    · subst hu; simp [stage]
    · simp [stage, hu]

theorem Inv.next {i m : ℤ} {s s' : Single} {l : Label} (hI : Inv i m s)
    (h : s.next l = some s') : Inv i m s' := by
  obtain ⟨st, es, hstep, hst, hacq, hrel⟩ := step_of_next hI.fits h
  have hfits := hI.fits.next h
  obtain ⟨-, hlock, hfree, hheld⟩ := hI
  have hcongr : ∀ st' ob', Account i m st' ob' (es.map (l.1, ·) ++ s.hist) →
      Account i m st' ob' s'.hist := by
    intro st' ob' hA
    unfold Account at hA ⊢
    rw [hacq, hrel]
    exact hA
  obtain ⟨hl', hfree', hother⟩ := hstep.lock_iff (hlock l.1)
  -- the account of the thread that moves, if it can change the object at all
  have hmover : s.ob.lock = none ∨ s.ob.lock = some l.1 →
      Account i m (stage s l.1) s.ob s.hist := by
    rintro (hn | hs)
    · have hout : stage s l.1 = .outside := by
        by_contra hne
        rw [(hlock l.1).2 hne] at hn
        cases hn
      rw [hout]
      exact hfree hn
    · exact hheld _ hs
  have hself : stage s' l.1 = st := by rw [hst, if_pos rfl]
  have hoth : ∀ u, u ≠ l.1 → stage s' u = stage s u := fun u hu => by rw [hst, if_neg hu]
  by_cases hm : s.ob.lock = none ∨ s.ob.lock = some l.1
  · have hA := hcongr _ _ ((hmover hm).step hstep)
    have hlock' : ∀ u, s'.ob.lock = some u → u = l.1 := by grind
    refine ⟨hfits, fun u => ?_, fun hn => ?_, fun u hu => ?_⟩
    · by_cases hu : u = l.1
      · subst hu; rw [hself]; exact hl'
      · rw [hoth u hu]
        grind
    · have hout : st = .outside := by
        by_contra hne
        rw [hl'.2 hne] at hn
        cases hn
      exact hout ▸ hA
    · obtain rfl := hlock' u hu
      rw [hself]
      exact hA
  · have hout : stage s l.1 = .outside := by
      by_contra hne
      exact hm (.inr ((hlock l.1).2 hne))
    have hout' : st = .outside := by
      by_contra hne
      exact hm (.inl (hfree' hout hne))
    subst hout'
    rw [hout] at hstep
    obtain ⟨hob, rfl⟩ := hstep.eq_of_outside
    have hst' : ∀ u, stage s' u = stage s u := fun u => by
      rw [hst]
      split_ifs with hu
      · rw [hu, hout]
      · rfl
    refine ⟨hfits, fun u => ?_, fun hn => ?_, fun u hu => ?_⟩
    · rw [hob, hst']; exact hlock u
    · exact absurd (.inl (hob ▸ hn)) hm
    · rw [hst']
      exact hcongr _ _ (hob ▸ hheld u (hob ▸ hu))

theorem inv_of_reachable {i m : ℤ} (h0 : 0 ≤ i) (hm : i ≤ m) {s : Single}
    (h : Single.lts.Reachable (created i m) s) : Inv i m s :=
  h.invariant (inv_created h0 hm) fun _ _ _ hI hn => hI.next hn

end Semaphore

end Sync

end Swinx
