import Swinx.LTS.Token
import Swinx.Sync.Single

/-!
# Ownership of a mutex

A mutex is one byte that its owner has taken out of the pipe, and `tid_owner`.  The byte keeps
mutual exclusion in every interleaving (`Mutex.holder_unique`).  The owner field is another
matter: `ReleaseMutex` writes the byte first and clears `tid_owner` afterwards, so the next owner
can take the byte and write its id before the old owner's `0` arrives, and then nobody can release
the mutex any more (`Mutex.ownership_lost`).  `Mutex.ownership_kept_iff` says which runs are free of
this: those in which every clearing of `tid_owner` comes before the next completed wait.
-/

namespace Swinx

namespace Sync

namespace Mutex

/-! ### The protocol a thread follows on a mutex -/

/-- Where a thread is in the life of the byte. -/
inductive Stage where
  /-- Not between two accesses that belong together. -/
  | outside
  /-- In `onWaitDone`, byte taken, owner not yet written. -/
  | carrying
  /-- In `ReleaseMutex`, owner test passed, byte not yet written. -/
  | posting
  /-- In `ReleaseMutex`, byte written, owner not yet cleared. -/
  | clearing
  deriving DecidableEq, Repr

/-- The stage of a place inside a call. -/
def stageOf : Op → Stage
  | .wait .owner | .recheck .owner => .carrying
  | .post => .posting
  | .clear => .clearing
  | _ => .outside

theorem stageOf_of_isEntry {op : Op} (h : op.isEntry = true) : stageOf op = .outside := by
  unfold Op.isEntry at h
  split at h <;> simp_all [stageOf]

/-- The stage of a thread. -/
def stage (s : Single) (t : Tid) : Stage := ((s.op t).map stageOf).getD .outside

theorem op_eq_clear {s : Single} {t : Tid} (h : stage s t = .clearing) :
    s.op t = some .clear := by
  cases hop : s.op t with
  | none => simp [stage, hop] at h
  | some op =>
    simp only [stage, hop, Option.map_some, Option.getD_some] at h
    unfold stageOf at h
    split at h <;> simp_all

/-- **What a step of `t` does to a mutex.** -/
inductive Step (t : Tid) (ob : Obj) : Stage → Obj → Stage → List Ev → Prop
  | idle : Step t ob .outside ob .outside []
  | take : 0 < ob.tokens → Step t ob .outside { ob with tokens := ob.tokens - 1 } .carrying []
  | own : Step t ob .carrying { ob with data := .mutex t } .outside [.acquired]
  | test : ob.data = .mutex t → Step t ob .outside ob .posting []
  | post : Step t ob .posting ob.writeSignal .clearing [.posted]
  | clear : Step t ob .clearing { ob with data := .mutex 0 } .outside []

theorem step_of_waitDone {t : Tid} {ob ob' : Obj} {w : WaitDone} {r : WaitDone.Res}
    {evs : List Ev} (hk : ob.data.kind = .mutex) (hf : w.fits .mutex = true)
    (h : w.step t ob = some (ob', r, evs)) :
    (w = .enter ∧ r = .more .owner ∧ 0 < ob.tokens ∧ ob' = { ob with tokens := ob.tokens - 1 } ∧
      evs = []) ∨
    (w = .enter ∧ r = .done false ∧ ob' = ob ∧ evs = []) ∨
    (w = .owner ∧ r = .done true ∧ ob' = { ob with data := .mutex t } ∧ evs = [.acquired]) := by
  have hr := fun ob' => @Obj.readSignal_eq_some ob ob'
  cases w <;> simp only [WaitDone.step] at h <;>
    grind [WaitDone.fits, Kind.autoReset, Data.kind]

theorem step_of_run {t : Tid} {ob ob' : Obj} {op : Op} {r : Op.Res} {evs : List Ev}
    (hk : ob.data.kind = .mutex) (hf : op.fits .mutex = true)
    (h : op.step t ob = some (ob', r, evs)) :
    Step t ob (stageOf op) ob' ((r.toOp.map stageOf).getD .outside) evs := by
  obtain ⟨o, ho⟩ : ∃ o, ob.data = .mutex o := by
    cases hd : ob.data <;> simp_all [Data.kind]
  cases op with
  | wait w | recheck w =>
    obtain ⟨⟨_, _, _⟩, hx, he⟩ := Option.map_eq_some_iff.1 h
    rcases step_of_waitDone hk hf hx with ⟨rfl, rfl, hn, rfl, rfl⟩ | ⟨rfl, rfl, rfl, rfl⟩ |
      ⟨rfl, rfl, rfl, rfl⟩ <;> cases he
    · exact .take hn
    · exact .idle
    · exact .own
  | select =>
    simp only [Op.step, Obj.manualReset, hk, Kind.manualReset, Bool.false_eq_true,
      ↓reduceIte] at h
    split_ifs at h
    cases h
    exact .idle
  | releaseMutex =>
    simp only [Op.step, ho] at h
    split_ifs at h with hot <;> cases h
    · exact .test (hot ▸ ho)
    · exact .idle
  | post => cases h; exact .post
  | clear =>
    simp only [Op.step, ho] at h
    cases h
    exact .clear
  | retry => cases h; exact .idle
  | setEvent | resetEvent | releaseSemaphore | fireTimer | cancelTimer =>
    simp only [Op.step, ho] at h
    cases h
    exact .idle
  | relTest | relWrite | relUnlock => cases hf

theorem step_of_act {t : Tid} {ob ob' : Obj} {op : Op} {a : Act} {r : Op.Res} {evs : List Ev}
    (hk : ob.data.kind = .mutex) (hf : op.fits .mutex = true)
    (h : op.act t ob a = some (ob', r, evs)) :
    Step t ob (stageOf op) ob' ((r.toOp.map stageOf).getD .outside) evs := by
  cases a with
  | run => exact step_of_run hk hf h
  | start _ => cases h
  | timeout | error =>
    cases op <;> simp only [Op.act, reduceCtorEq] at h <;> (try split_ifs at h) <;> cases h <;>
      exact .idle

/-! ### Holders -/

/-- `t` has completed a wait and not yet written the byte back. -/
def holds (t : Tid) : List (Tid × Ev) → Bool
  | [] => false
  | (u, .acquired) :: h => decide (u = t) || holds t h
  | (u, .posted) :: h => !decide (u = t) && holds t h
  | _ :: h => holds t h

theorem holds_acquired {t u : Tid} {h : List (Tid × Ev)} :
    holds u ([.acquired].map (t, ·) ++ h) = true ↔ t = u ∨ holds u h = true := by
  simp [holds]

theorem holds_posted {t u : Tid} {h : List (Tid × Ev)} :
    holds u ([.posted].map (t, ·) ++ h) = true ↔ t ≠ u ∧ holds u h = true := by
  simp [holds]

theorem holds_tag (u t : Tid) (r : Op.Res) (evs : List Ev) (h : List (Tid × Ev)) :
    holds u (Single.tag t r evs ++ h) = holds u (evs.map (t, ·) ++ h) := by
  cases r <;> rfl

/-- A mutex just created by `c`. -/
def created (c : Tid) (bInitialOwner : Bool) : Single :=
  { ob := Obj.createMutex c bInitialOwner
    op := fun _ => none
    hist := if bInitialOwner then [(c, .acquired)] else [] }

/-- `t` has the byte in its hands. -/
def Carries (s : Single) (t : Tid) : Prop := holds t s.hist = true ∨ stage s t = .carrying

/-- The invariant of all runs. -/
structure Inv (s : Single) : Prop where
  fits : s.Fits .mutex
  token : Exclusive s.ob.tokens (Carries s)
  owner : ∀ t : Tid, s.ob.data = .mutex t → holds t s.hist = true ∨ stage s t = .clearing
  posting : ∀ t, stage s t = .posting → holds t s.hist = true
  clearing : ∀ t, stage s t = .clearing → holds t s.hist = false
  carrying : ∀ t, stage s t = .carrying → holds t s.hist = false

theorem holds_created {c t : Tid} {b : Bool} :
    holds t (created c b).hist = true ↔ b = true ∧ c = t := by
  cases b <;> simp [created, holds]

theorem inv_created (c : Tid) (b : Bool) : Inv (created c b) := by
  have hst : ∀ t, stage (created c b) t = .outside := fun t => rfl
  refine ⟨?_, ?_, fun t ht => ?_, ?_, ?_, ?_⟩
  · have := Single.fits_init (Obj.createMutex c b)
    cases b <;> exact ⟨rfl, fun _ _ h => nomatch h⟩
  · cases b
    · exact .free rfl fun t ht => by simp [Carries, holds_created, hst] at ht
    · refine .held c rfl (.inl (holds_created.2 ⟨rfl, rfl⟩)) fun u hu => ?_
      rcases hu with hu | hu
      · exact (holds_created.1 hu).2.symm
      · rw [hst] at hu; cases hu
  · cases b
    · have h0 : (0 : ℕ) = t := Data.mutex.inj ht
      exact absurd h0.symm t.ne_zero
    · exact .inl (holds_created.2 ⟨rfl, PNat.coe_injective (Data.mutex.inj ht)⟩)
  all_goals intro t ht; rw [hst] at ht; cases ht

theorem step_of_next {s s' : Single} {l : Label} (hs : s.Fits .mutex)
    (h : s.next l = some s') : ∃ st evs, Step l.1 s.ob (stage s l.1) s'.ob st evs ∧
      (∀ u, stage s' u = if u = l.1 then st else stage s u) ∧
      ∀ u, holds u s'.hist = holds u (evs.map (l.1, ·) ++ s.hist) := by
  rcases Single.next_cases h with ⟨op, -, hop, hen, rfl⟩ | ⟨op, ob', r, evs, hop, hact, rfl⟩
  · have hst : stage s l.1 = .outside := by simp [stage, hop]
    refine ⟨.outside, [], by rw [hst]; exact .idle, fun u => ?_, fun u => rfl⟩
    split_ifs with hu
    · subst hu
      simp [stage, stageOf_of_isEntry hen]
    · simp [stage, hu]
  · have hst : stage s l.1 = stageOf op := by simp [stage, hop]
    refine ⟨_, evs, hst ▸ step_of_act hs.kind (hs.op _ _ hop) hact, fun u => ?_, fun u => ?_⟩
    · split_ifs with hu
      · subst hu; simp [stage]
      · simp [stage, hu]
    · exact holds_tag _ _ _ _ _

theorem Inv.next {s s' : Single} {l : Label} (hI : Inv s) (h : s.next l = some s') :
    Inv s' := by
  obtain ⟨st, evs, hstep, hst, hh⟩ := step_of_next hI.fits h
  have hfits := hI.fits.next h
  obtain ⟨-, token, owner, posting, clearing, carrying⟩ := hI
  generalize hs₀ : stage s l.1 = st₀ at hstep
  generalize hob : s'.ob = ob' at hstep
  cases hstep with
  | idle =>
    have hC : ∀ u, Carries s' u ↔ Carries s u := by grind [Carries]
    refine ⟨hfits, hob ▸ token.congr hC, ?_, ?_, ?_, ?_⟩ <;> grind
  | take hn =>
    have hfree : ∀ u, holds u s.hist = false := fun u =>
      Bool.eq_false_iff.2 fun hu => token.not_carried hn u (.inl hu)
    refine ⟨hfits, hob ▸ token.take hn (t := l.1) ?_ ?_, ?_, ?_, ?_, ?_⟩ <;> grind [Carries]
  | own =>
    have hC : ∀ u, Carries s' u ↔ Carries s u := by grind [Carries, holds_acquired]
    have huniq := fun u hu => token.unique (t := l.1) (u := u) (.inr hs₀) hu
    have hdata : ∀ t : Tid, s'.ob.data = .mutex t → t = l.1 := fun t ht => by
      simpa [hob, eq_comm] using ht
    refine ⟨hfits, hob ▸ token.congr hC, ?_, ?_, ?_, ?_⟩ <;> grind [Carries, holds_acquired]
  | test hd =>
    have hC : ∀ u, Carries s' u ↔ Carries s u := by grind [Carries]
    refine ⟨hfits, hob ▸ token.congr hC, ?_, ?_, ?_, ?_⟩ <;> grind
  | post =>
    refine ⟨hfits, hob ▸ token.put (t := l.1) ?_ ?_ ?_, ?_, ?_, ?_, ?_⟩ <;>
      grind [Carries, holds_posted, Obj.writeSignal]
  | clear =>
    have hC : ∀ u, Carries s' u ↔ Carries s u := by grind [Carries]
    have hdata : ∀ t : Tid, s'.ob.data ≠ .mutex t := fun t ht =>
      t.ne_zero (Data.mutex.inj ((congrArg Obj.data hob).symm.trans ht)).symm
    refine ⟨hfits, hob ▸ token.congr hC, ?_, ?_, ?_, ?_⟩ <;> grind

theorem inv_of_reachable {c : Tid} {b : Bool} {s : Single}
    (h : Single.lts.Reachable (created c b) s) : Inv s :=
  h.invariant (inv_created c b) fun _ _ _ hI hn => hI.next hn

/-- **Mutual exclusion**, in every interleaving: at most one thread is between a completed wait and
the byte its `ReleaseMutex` writes. -/
theorem holder_unique {c : Tid} {b : Bool} {s : Single}
    (h : Single.lts.Reachable (created c b) s) {t u : Tid} (ht : holds t s.hist = true)
    (hu : holds u s.hist = true) : t = u :=
  (inv_of_reachable h).token.unique (.inl ht) (.inl hu)

/-! ### Ownership -/

/-- `t` holds the mutex and is not past the owner test of `ReleaseMutex`. -/
def Owns (s : Single) (t : Tid) : Prop := holds t s.hist = true ∧ stage s t ≠ .posting

/-- Ownership is kept in `s`: there is at most one holder, `tid_owner` is the id of the holder, and
its `ReleaseMutex` passes the owner test. -/
structure Kept (s : Single) : Prop where
  unique : ∀ t u, holds t s.hist = true → holds u s.hist = true → t = u
  owner : ∀ t, Owns s t → s.ob.data = .mutex t
  release : ∀ t, Owns s t → s.op t = some .releaseMutex →
    Op.releaseMutex.step t s.ob = some (s.ob, .more .post, [])

/-- The step does not clear `tid_owner` under a thread that owns the mutex. -/
def ClearsInTime (s : Single) (l : Label) : Prop :=
  s.op l.1 = some .clear → ∀ u, ¬ Owns s u

/-- The invariant of the runs that clear the owner in time. -/
structure Kept.Inv (s : Single) : Prop where
  base : Mutex.Inv s
  owner : ∀ t, Owns s t → s.ob.data = .mutex t

theorem Kept.Inv.kept {s : Single} (h : Kept.Inv s) : Kept s where
  unique _ _ ht hu := h.base.token.unique (.inl ht) (.inl hu)
  owner := h.owner
  release t ht _ := by simp [Op.step, h.owner t ht]

theorem Kept.Inv.next {s s' : Single} {l : Label} (hI : Kept.Inv s) (hG : ClearsInTime s l)
    (h : s.next l = some s') : Kept.Inv s' := by
  refine ⟨hI.base.next h, ?_⟩
  obtain ⟨st, evs, hstep, hst, hh⟩ := step_of_next hI.base.fits h
  obtain ⟨⟨-, token, -, posting, clearing, carrying⟩, owner⟩ := hI
  have hclear := op_eq_clear (s := s) (t := l.1)
  generalize hs₀ : stage s l.1 = st₀ at hstep hclear
  generalize hob : s'.ob = ob' at hstep
  cases hstep with
  | idle | test _ => grind [Owns]
  | take hn =>
    have hfree : ∀ u, holds u s.hist = false := fun u =>
      Bool.eq_false_iff.2 fun hu => token.not_carried hn u (.inl hu)
    grind [Owns]
  | own =>
    have huniq := fun u hu => token.unique (t := l.1) (u := u) (.inr hs₀) (.inl hu)
    grind [Owns, holds_acquired]
  | post => grind [Owns, holds_posted, Obj.writeSignal]
  | clear => grind [Owns, ClearsInTime]

theorem clearsInTime_of_kept {s s' : Single} {l : Label} (hI : Kept.Inv s)
    (h : s.next l = some s') (hK : Kept s') : ClearsInTime s l := by
  intro hop u hu
  obtain ⟨st, evs, hstep, hst, hh⟩ := step_of_next hI.base.fits h
  have hs₀ : stage s l.1 = .clearing := by simp [stage, hop, stageOf]
  rw [hs₀] at hstep
  generalize hob : s'.ob = ob' at hstep
  cases hstep with
  | clear =>
    have hne : u ≠ l.1 := by
      rintro rfl
      exact absurd hu.1 (by simp [hI.base.clearing _ hs₀])
    have hu' : Owns s' u := ⟨by simpa [hh] using hu.1, by simpa [hst, hne] using hu.2⟩
    have h0 := (congrArg Obj.data hob).symm.trans (hK.owner u hu')
    exact u.ne_zero (Data.mutex.inj h0).symm

/-- **Ownership is kept exactly in the runs that clear `tid_owner` in time**: a mutex created with
or without an initial owner, any number of threads, any interleaving. -/
theorem ownership_kept_iff (c : Tid) (bInitialOwner : Bool) (ls : List Label) :
    Single.lts.AllStates Kept (created c bInitialOwner) ls ↔
      Single.lts.AllSteps ClearsInTime (created c bInitialOwner) ls := by
  refine LTS.allStates_iff_allSteps (I := Kept.Inv) (fun s => Kept.Inv.kept)
    (fun s l s' hI hG hn => hI.next hG hn) (fun s l s' hI hn hK => clearsInTime_of_kept hI hn hK) ?_
  refine ⟨inv_created c bInitialOwner, fun t ht => ?_⟩
  obtain ⟨rfl, rfl⟩ := holds_created.1 ht.1
  rfl

/-- Thread 1 releases the mutex it created; thread 2 acquires it before thread 1 has cleared the
owner, and cannot release it afterwards. -/
def staleClear : List Label :=
  [(1, .start .releaseMutex), (1, .run), (1, .run),
    (2, .start .select), (2, .run), (2, .run), (2, .run),
    (1, .run), (2, .start .releaseMutex), (2, .run)]

/-- **Ownership can be lost.** -/
theorem ownership_lost : ∃ s, Single.lts.run (created 1 true) staleClear = some s ∧
    Owns s 2 ∧ s.ob.data = .mutex 0 ∧ s.hist.head? = some (2, .returned (.bool false)) ∧
    ¬ Kept s := by
  refine ⟨_, rfl, ⟨by decide, by decide⟩, rfl, rfl, fun h => ?_⟩
  exact absurd (h.owner 2 ⟨by decide, by decide⟩) (by decide)

end Mutex

end Sync

end Swinx
