import Swinx.Sync.System

/-!
# What `WaitForMultipleObjects` consumes

With `bWaitAll` a call should acquire all the objects or none (`Multi.AllOrNothing`), without it
only the object it reports (`Multi.OnlyReported`).  Both fail, for two reasons.  `nRet` is
unsigned, so the loop that checks the states again also runs after a time-out, and it runs
`onWaitDone` on every entry whose state is set, not only on the reported one
(`WaitMultiple.timeout_takes`, `WaitMultiple.takes_unreported`); and when `onWaitDone` fails half
way, the call starts again without giving back what it has acquired.

`RecheckOk` excludes exactly these two steps, and both contracts hold in every run without them
(`WaitMultiple.all_or_nothing`, `WaitMultiple.only_reported`).
-/

namespace Swinx

namespace Sync

namespace WaitDone

variable {t : Tid} {ob ob' : Obj} {w w' : WaitDone} {b : Bool} {evs : List Ev}

/-- The next step of `onWaitDone` reads a byte. -/
def readsByte (t : Tid) (ob : Obj) (w : WaitDone) : Bool :=
  match w.step t ob with
  | some (ob', _, _) => decide (ob'.tokens < ob.tokens)
  | none => false

/-- The next step of `onWaitDone` returns false. -/
def fails (t : Tid) (ob : Obj) (w : WaitDone) : Bool :=
  match w.step t ob with
  | some (_, .done false, _) => true
  | _ => false

/-- `onWaitDone` has taken a byte only if it has just read one. -/
theorem took_of_step (h : w.step t ob = some (ob', .more w', evs)) (ht : w'.took = true) :
    w.took = true ∨ ob'.tokens < ob.tokens := by
  have hr := fun ob' => @Obj.readSignal_eq_some ob ob'
  cases w <;> simp only [step] at h <;> grind [drainStep, took]

/-- `onWaitDone` changes the object only once it has taken a byte. -/
theorem took_of_changed (h : w.step t ob = some (ob', .more w', evs))
    (hc : ob'.tokens ≠ ob.tokens ∨ ob'.data ≠ ob.data) : w'.took = true := by
  have hr := fun ob' => @Obj.readSignal_eq_some ob ob'
  cases w <;> simp only [step] at h <;> grind [drainStep, took]

theorem took_mono (h : w.step t ob = some (ob', .more w', evs)) (ht : w.took = true) :
    w'.took = true := by
  cases w <;> simp only [step] at h <;> grind [drainStep, took]

theorem eq_of_done_false (h : w.step t ob = some (ob', .done false, evs)) :
    w.took = false ∧ ob'.tokens = ob.tokens ∧ ob'.data = ob.data := by
  cases w <;> simp only [step] at h <;> grind [drainStep, took]

/-- An `onWaitDone` that succeeds has taken a byte, unless the object is manual-reset. -/
theorem took_of_done_true (h : w.step t ob = some (ob', .done true, evs))
    (hk : ob.data.kind.manualReset = false) : w.took = true := by
  cases w <;> simp only [step] at h <;>
    grind [drainStep, took, Data.kind, Kind.manualReset]

theorem tokens_of_done_true (h : w.step t ob = some (ob', .done true, evs)) :
    ob'.tokens = ob.tokens ∧ (ob'.data ≠ ob.data → w.took = true) := by
  cases w <;> simp only [step] at h <;> grind [drainStep, took]

end WaitDone

namespace Multi

/-- The call is about to report the entry `j` as acquired. -/
def Reports (c : Multi) (j : ℕ) : Prop :=
  j < c.nCount ∧ c.nRet = if c.bWaitAll then WAIT_OBJECT_0 else WAIT_OBJECT_0 + j

instance (c : Multi) (j : ℕ) : Decidable (c.Reports j) := inferInstanceAs (Decidable (_ ∧ _))

/-- **All or nothing.**  A call with `bWaitAll` that returns `WAIT_TIMEOUT` has changed no object,
and one that returns `WAIT_OBJECT_0` has acquired every object once. -/
def AllOrNothing (c : Multi) : Prop :=
  c.bWaitAll = true → c.nCount ≤ MAXIMUM_WAIT_OBJECTS →
    (c.nRet = WAIT_TIMEOUT → ∀ j, c.touched j = false) ∧
    (c.nRet = WAIT_OBJECT_0 → ∀ j o, c.handle j = some o → c.acquired j = 1)

/-- **Only what is reported.**  A call without `bWaitAll`, on valid handles, that returns
`WAIT_OBJECT_0 + i` has acquired the object `i` once and changed no other. -/
def OnlyReported (c : Multi) : Prop :=
  c.bWaitAll = false → c.nCount ≤ MAXIMUM_WAIT_OBJECTS →
    (∀ j, j < c.nCount → (c.handle j).isSome = true) →
    ∀ i, i < c.nCount → c.nRet = WAIT_OBJECT_0 + i →
      c.acquired i = 1 ∧ ∀ j, j ≠ i → c.touched j = false

theorem lt_nCount {c : Multi} {j : ℕ} {o : ObjId} (h : c.handle j = some o) : j < c.nCount := by
  unfold handle at h
  by_contra hj
  rw [List.getElem?_eq_none (not_lt.1 hj)] at h
  cases h

/-- What holds of the ghost variables at every place of a call on objects of the kinds `K`. -/
structure Tracked (K : ObjId → Kind) (c : Multi) : Prop where
  nCount_le : c.pc ≠ .start → c.nCount ≤ MAXIMUM_WAIT_OBJECTS
  handle : ∀ i w, c.pc = .onWaitDone i w → ∃ o, c.handle i = some o
  acquired : ∀ j, c.touched j = true → 0 < c.acquired j ∨
    ∃ w, c.pc = .onWaitDone j w ∧ w.took = true
  took : ∀ j w, c.pc = .onWaitDone j w → w.took = true → c.touched j = true
  touched : ∀ j o, c.handle j = some o → (K o).manualReset = false → 0 < c.acquired j →
    c.touched j = true
  valid : ∀ j, 0 < c.acquired j → j < c.nCount

theorem tracked_init {K : ObjId → Kind} (hs : List (Option ObjId)) (all : Bool) (ms : ℕ) :
    Tracked K (init hs all ms) :=
  ⟨nofun, nofun, nofun, nofun, nofun, nofun⟩

theorem step_ghosts {objs : ObjId → Obj} {c c' : Multi} {a : Act} {now : ℕ} {r : Res}
    (h : c.step objs a now = some r) (hr : r = .more c' ∨ r = .ret c') :
    c'.lpHandles = c.lpHandles ∧ c'.bWaitAll = c.bWaitAll ∧ c'.acquired = c.acquired ∧
      c'.touched = c.touched := by
  unfold step at h
  split at h <;> (try split_ifs at h) <;> cases h <;> rcases hr with hr | hr <;> cases hr <;> simp

theorem step_nCount {objs : ObjId → Obj} {c c' : Multi} {a : Act} {now : ℕ}
    (h : c.step objs a now = some (.more c'))
    (hn : c.pc ≠ .start → c.nCount ≤ MAXIMUM_WAIT_OBJECTS) :
    c.nCount ≤ MAXIMUM_WAIT_OBJECTS := by
  by_cases hpc : c.pc = .start
  · unfold step at h
    rw [hpc] at h
    cases a <;> simp only [reduceCtorEq] at h
    split_ifs at h with hlt
    · cases h
    · exact not_lt.1 hlt
  · exact hn hpc

theorem Tracked.step {K : ObjId → Kind} {objs : ObjId → Obj} {c c' : Multi} {a : Act} {now : ℕ}
    (hT : Tracked K c) (h : c.step objs a now = some (.more c')) : Tracked K c' := by
  obtain ⟨hs, -, hacq, htou⟩ := step_ghosts h (.inl rfl)
  obtain ⟨hpc, hmore⟩ := step_pc h
  obtain ⟨-, hpc'⟩ := hmore c' rfl
  have hhandle : ∀ j, c'.handle j = c.handle j := fun j => by rw [Multi.handle, hs]; rfl
  have hnot : ∀ i w, c'.pc = .onWaitDone i w → w = .enter ∧ ∃ o, c.handle i = some o := by
    grind
  have hnCount : c'.nCount = c.nCount := by rw [nCount, hs]; rfl
  refine ⟨fun _ => ?_, ?_, ?_, ?_, ?_, ?_⟩
  · rw [hnCount]
    exact step_nCount h hT.nCount_le
  · grind
  · intro j hj
    have := hT.acquired j (htou ▸ hj)
    grind
  · intro j w hw ht
    rw [(hnot j w hw).1] at ht
    cases ht
  · intro j o ho hk hj
    rw [htou]
    exact hT.touched j o (hhandle j ▸ ho) hk (hacq ▸ hj)
  · intro j hj
    rw [hnCount]
    exact hT.valid j (hacq ▸ hj)

theorem Tracked.afterWaitDone {K : ObjId → Kind} {t : Tid} {ob ob' : Obj} {c : Multi} {i : ℕ}
    {o : ObjId} {w : WaitDone} {r : WaitDone.Res} {evs : List Ev} (hT : Tracked K c)
    (hpc : c.pc = .onWaitDone i w) (ho : c.handle i = some o) (hk : ob.data.kind = K o)
    (h : w.step t ob = some (ob', r, evs)) :
    Tracked K (c.afterWaitDone i (decide (ob'.tokens ≠ ob.tokens ∨ ob'.data ≠ ob.data)) r) := by
  have hn : c.nCount ≤ MAXIMUM_WAIT_OBJECTS := hT.nCount_le (by simp [hpc])
  have hi : i < c.nCount := lt_nCount ho
  obtain ⟨-, -, hacq, htook, htou, hvalid⟩ := hT
  have htou' := fun j => afterWaitDone_touched c i j
    (decide (ob'.tokens ≠ ob.tokens ∨ ob'.data ≠ ob.data)) r
  have hacq' := fun j => afterWaitDone_acquired c i j
    (decide (ob'.tokens ≠ ob.tokens ∨ ob'.data ≠ ob.data)) r
  have hpc' := afterWaitDone_pc c i (decide (ob'.tokens ≠ ob.tokens ∨ ob'.data ≠ ob.data)) r
  have hhandle := fun j => afterWaitDone_handle c i j
    (decide (ob'.tokens ≠ ob.tokens ∨ ob'.data ≠ ob.data)) r
  have hn' : (c.afterWaitDone i (decide (ob'.tokens ≠ ob.tokens ∨ ob'.data ≠ ob.data)) r).nCount =
      c.nCount := by rcases r with _ | (_ | _) <;> rfl
  generalize c.afterWaitDone i _ r = c' at *
  rcases r with w' | (_ | _)
  · have h1 := WaitDone.took_of_changed h
    have h2 := WaitDone.took_mono h
    have h3 := WaitDone.took_of_step h
    refine ⟨fun _ => hn'.trans_le hn, ?_, ?_, ?_, ?_, ?_⟩ <;> grind
  · have h1 := WaitDone.eq_of_done_false h
    refine ⟨fun _ => hn'.trans_le hn, ?_, ?_, ?_, ?_, ?_⟩ <;> grind
  · have h1 := WaitDone.tokens_of_done_true h
    have h2 := WaitDone.took_of_done_true h
    refine ⟨fun _ => hn'.trans_le hn, ?_, ?_, ?_, ?_, ?_⟩ <;> grind

/-- Round `i` of the loop that checks the states again: the entries to be reported are acquired
before round `i` and not after it, and no other entry is touched. -/
structure Pass (c : Multi) (i : ℕ) : Prop where
  states : ∀ j, c.Reports j → c.states j = true
  acquired : ∀ j o, c.Reports j → c.handle j = some o → c.acquired j = if j < i then 1 else 0
  touched : ∀ j, c.touched j = true → c.Reports j

/-- What holds at each place of a call that has not gone wrong. -/
def Phase (c : Multi) : Prop :=
  match c.pc with
  | .recheck i | .onWaitDone i _ => c.Pass i
  | .evaluate => (∀ j, c.acquired j = 0) ∧
      (c.nRet = WAIT_FAILED ∨ ∃ j, j < c.nCount ∧ c.states j = true)
  | _ => ∀ j, c.acquired j = 0

/-- The account of a call that has not gone wrong. -/
structure Settled (c : Multi) : Prop where
  acquired : ∀ j o, c.Reports j → c.handle j = some o → c.acquired j = 1
  touched : ∀ j, c.touched j = true → c.Reports j

theorem firstReady_eq_some {c : Multi} {i : ℕ} (h : c.firstReady = some i) :
    i < c.nCount ∧ c.states i = true := by
  have hm := List.mem_of_find?_eq_some h
  exact ⟨List.mem_range.1 hm, List.find?_some h⟩

theorem firstReady_eq_none {c : Multi} (h : c.firstReady = none) {j : ℕ} (hj : j < c.nCount) :
    c.states j = false := by
  simpa using List.find?_eq_none.1 h j (List.mem_range.2 hj)

theorem allReady_iff {c : Multi} : c.allReady = true ↔ ∀ j, j < c.nCount → c.states j = true := by
  simp [allReady]

theorem exists_selects {c : Multi} {objs : ObjId → Obj} (h : c.selectCount objs ≠ 0) :
    ∃ j, j < c.nCount ∧ c.selects objs j = true := by
  obtain ⟨j, hj, hs⟩ := List.countP_pos_iff.1 (Nat.pos_of_ne_zero h)
  exact ⟨j, List.mem_range.1 hj, hs⟩

/-- The loop that checks the states again starts with nothing acquired. -/
theorem pass_zero {K : ObjId → Kind} {c c' : Multi} (hT : Tracked K c)
    (hpc : ∀ i w, c.pc ≠ .onWaitDone i w) (h0 : ∀ j, c.acquired j = 0)
    (hacq : c'.acquired = c.acquired) (htou : c'.touched = c.touched)
    (hs : ∀ j, c'.Reports j → c'.states j = true) : c'.Pass 0 := by
  refine ⟨hs, fun j o _ _ => by simp [hacq, h0], fun j hj => ?_⟩
  rcases hT.acquired j (htou ▸ hj) with hpos | ⟨w, hw, -⟩
  · rw [h0] at hpos; cases hpos
  · exact absurd hw (hpc j w)

/-- A call that is about to time out or to fail reports nothing. -/
theorem Reports.false {c : Multi} {j : ℕ} (h : c.Reports j) (hn : c.nCount ≤ MAXIMUM_WAIT_OBJECTS)
    (hr : c.nRet = WAIT_TIMEOUT ∨ c.nRet = WAIT_FAILED) : False := by
  obtain ⟨hj, he⟩ := h
  have h64 : j < 64 := lt_of_lt_of_le hj hn
  rcases hr with hr | hr <;> rw [hr] at he <;> split_ifs at he <;>
    simp only [WAIT_TIMEOUT, WAIT_FAILED, WAIT_OBJECT_0] at he <;> omega

theorem Phase.step {K : ObjId → Kind} {objs : ObjId → Obj} {c c' : Multi} {a : Act} {now : ℕ}
    (hP : Phase c) (hT : Tracked K c) (h : c.step objs a now = some (.more c')) : Phase c' := by
  have hn := step_nCount h hT.nCount_le
  have hpc := (step_pc h).1
  unfold Multi.step at h
  split at h
  case h_1 hc =>
    rw [Phase, hc] at hP
    split_ifs at h <;> cases h
    exact hP
  case h_2 hc | h_3 hc =>
    rw [Phase, hc] at hP
    cases h
    exact hP
  case h_4 hc =>
    rw [Phase, hc] at hP
    split_ifs at h with h0
    cases h
    obtain ⟨j, hj, hs⟩ := exists_selects h0
    exact ⟨hP, .inr ⟨j, hj, by simp [hj, hs]⟩⟩
  case h_5 hc =>
    rw [Phase, hc] at hP
    split_ifs at h
    cases h
    exact pass_zero hT hpc hP rfl rfl fun j hj => (hj.false hn (.inl rfl)).elim
  case h_6 hc =>
    rw [Phase, hc] at hP
    cases h
    exact ⟨hP, .inl rfl⟩
  case h_7 hc =>
    rw [Phase, hc] at hP
    obtain ⟨hP, hex⟩ := hP
    split_ifs at h with hall hready hinf hlate <;> cases h
    · -- without `bWaitAll` the entry reported is the first whose state is set
      refine pass_zero hT hpc hP rfl rfl fun j hj => ?_
      cases hf : c.firstReady with
      | some r =>
        obtain ⟨-, hs⟩ := firstReady_eq_some hf
        have hr : r = j := by
          have := hj.2
          simp_all [WAIT_OBJECT_0]
        exact hr ▸ hs
      | none =>
        obtain hfail | ⟨k, hk, hs⟩ := hex
        · exact (hj.false hn (.inr (by simp [hf, hfail]))).elim
        · rw [firstReady_eq_none hf hk] at hs
          cases hs
    · exact pass_zero hT hpc hP rfl rfl fun j hj => allReady_iff.1 hready j hj.1
    · exact hP
    · exact pass_zero hT hpc hP rfl rfl fun j hj => (hj.false hn (.inl rfl)).elim
    · exact hP
  case h_8 i hc =>
    rw [Phase, hc] at hP
    split_ifs at h with hi hs <;> cases h
    · exact ⟨hP.states, hP.acquired, hP.touched⟩
    · -- an entry that is skipped has no object, unless it is not to be reported
      refine ⟨hP.states, fun j o hj ho => ?_, hP.touched⟩
      have hne : j ≠ i := by
        rintro rfl
        exact hs (by simp [hP.states j hj, show c.handle j = some o from ho])
      rw [show c.acquired j = _ from hP.acquired j o hj ho]
      grind
  case h_9 hc =>
    rw [Phase, hc] at hP
    split_ifs at h <;> cases h <;> exact hP
  case h_10 => cases h

theorem Phase.settled {K : ObjId → Kind} {objs : ObjId → Obj} {c c' : Multi} {a : Act} {now : ℕ}
    (hP : Phase c) (hT : Tracked K c) (h : c.step objs a now = some (.ret c'))
    (hn : c'.nCount ≤ MAXIMUM_WAIT_OBJECTS) : Settled c' := by
  have hpc := (step_pc h).1
  have htou : (∀ j, c.acquired j = 0) → ∀ j, c.touched j = true → False := by
    intro h0 j hj
    rcases hT.acquired j hj with hpos | ⟨w, hw, -⟩
    · rw [h0] at hpos; cases hpos
    · exact hpc j w hw
  unfold Multi.step at h
  split at h
  case h_1 hc =>
    split_ifs at h with hlt <;> cases h
    exact absurd hlt (not_lt.2 hn)
  case h_8 i hc =>
    rw [Phase, hc] at hP
    split_ifs at h with hi <;> cases h
    refine ⟨fun j o hj ho => ?_, hP.touched⟩
    rw [hP.acquired j o hj ho, if_pos (lt_of_lt_of_le hj.1 (not_lt.1 hi))]
  case h_9 hc =>
    rw [Phase, hc] at hP
    split_ifs at h with hinf hto hlate hto <;> cases h <;>
      refine ⟨fun j o hj _ => (hj.false hn (.inl ?_)).elim,
        fun j hj => (htou hP j hj).elim⟩ <;> first | rfl | assumption
  all_goals (try split_ifs at h) <;> cases h

theorem Phase.afterWaitDone {K : ObjId → Kind} {t : Tid} {ob ob' : Obj} {c : Multi} {i : ℕ}
    {w : WaitDone} {r : WaitDone.Res} {evs : List Ev} (hP : Phase c)
    (hT : Tracked K c) (hpc : c.pc = .onWaitDone i w)
    (h : w.step t ob = some (ob', r, evs)) (hread : w.readsByte t ob = true → c.Reports i)
    (hfail : w.fails t ob = true → ∀ j, j < c.nCount → c.acquired j = 0) :
    Phase (c.afterWaitDone i (decide (ob'.tokens ≠ ob.tokens ∨ ob'.data ≠ ob.data)) r) := by
  rw [Phase, hpc] at hP
  have hchanged : ob'.tokens ≠ ob.tokens ∨ ob'.data ≠ ob.data → c.Reports i := by
    intro hc
    by_cases hw : w.took = true
    · exact hP.touched i (hT.took i w hpc hw)
    · refine hread ?_
      rcases r with w' | (_ | _)
      · have := (WaitDone.took_of_step h (WaitDone.took_of_changed h hc)).resolve_left hw
        simpa [WaitDone.readsByte, h] using this
      · have := WaitDone.eq_of_done_false h
        grind
      · have := WaitDone.tokens_of_done_true h
        grind
  have htouched : ∀ j, (c.afterWaitDone i (decide (ob'.tokens ≠ ob.tokens ∨ ob'.data ≠ ob.data))
      r).touched j = true → c.Reports j := by
    intro j hj
    rw [afterWaitDone_touched] at hj
    have := hP.touched j
    grind
  rcases r with w' | (_ | _)
  · exact ⟨hP.states, hP.acquired, htouched⟩
  · intro j
    by_contra hj
    have hpos : 0 < c.acquired j := Nat.pos_of_ne_zero hj
    exact hj (hfail (by simp [WaitDone.fails, h]) j (hT.valid j hpos))
  · refine ⟨hP.states, fun j o hj ho => ?_, htouched⟩
    have := hP.acquired j o hj ho
    rw [afterWaitDone_acquired]
    grind

end Multi

namespace WaitMultiple

/-- A step of `onWaitDone` in the loop that checks the states again. -/
structure Recheck where
  call : Multi
  /-- The entry. -/
  i : ℕ
  w : WaitDone
  /-- Its object. -/
  ob : Obj

/-- The step of `onWaitDone` that a thread is about to execute in this loop. -/
def rechecking (s : System) (t : Tid) : Option Recheck :=
  match s.thr t with
  | .multi c =>
    match c.pc with
    | .onWaitDone i w => (c.handle i).map fun o => ⟨c, i, w, s.objs o⟩
    | _ => none
  | _ => none

/-- The step is none of the two by which a `WaitForMultipleObjects` with the given `bWaitAll` goes
wrong: `onWaitDone` reading a byte of an entry that the call is not about to report, and
`onWaitDone` failing when the call has already acquired an entry. -/
def RecheckOk (bWaitAll : Bool) (s : System) (l : Tid × SysAct) : Prop :=
  ∀ x ∈ rechecking s l.1, x.call.bWaitAll = bWaitAll →
    (x.w.readsByte l.1 x.ob = true → x.call.Reports x.i) ∧
    (x.w.fails l.1 x.ob = true → ∀ j, j < x.call.nCount → x.call.acquired j = 0)

instance (b : Bool) (s : System) (l : Tid × SysAct) : Decidable (RecheckOk b s l) :=
  inferInstanceAs (Decidable (∀ x ∈ rechecking s l.1, _))

theorem rechecking_eq {s : System} {t : Tid} {c : Multi} {i : ℕ} {w : WaitDone} {o : ObjId}
    (hth : s.thr t = .multi c) (hpc : c.pc = .onWaitDone i w) (ho : c.handle i = some o) :
    rechecking s t = some ⟨c, i, w, s.objs o⟩ := by
  simp [rechecking, hth, hpc, ho]

/-- The invariant of the runs without such steps. -/
structure Inv (K : ObjId → Kind) (bWaitAll : Bool) (s : System) : Prop where
  kind : ∀ o, (s.objs o).data.kind = K o
  tracked : ∀ t c, s.thr t = .multi c → c.Tracked K
  phase : ∀ t c, s.thr t = .multi c → c.bWaitAll = bWaitAll → c.Phase
  settled : ∀ c, c ∈ s.returned → c.bWaitAll = bWaitAll → c.nCount ≤ MAXIMUM_WAIT_OBJECTS →
    c.Settled

theorem inv_init (objs : ObjId → Obj) (b : Bool) :
    Inv (fun o => (objs o).data.kind) b (System.init objs) :=
  ⟨fun _ => rfl, nofun, nofun, nofun⟩

theorem Inv.next {K : ObjId → Kind} {b : Bool} {s s' : System} {l : Tid × SysAct}
    (hI : Inv K b s) (hG : RecheckOk b s l) (h : s.next l = some s') : Inv K b s' := by
  obtain ⟨hk, hT, hP, hS⟩ := hI
  have hthr : ∀ {th : Thr} {P : Multi → Prop}, (∀ c, th = .multi c → P c) →
      (∀ t c, s.thr t = .multi c → P c) →
      ∀ t c, Function.update s.thr l.1 th t = .multi c → P c := by
    intro th P hth hold t c hc
    by_cases ht : t = l.1
    · subst ht
      rw [Function.update_self] at hc
      exact hth c hc
    · exact hold t c (by rwa [Function.update_of_ne ht] at hc)
  have hkind : ∀ o₁ ob', ob'.data.kind = (s.objs o₁).data.kind →
      ∀ o, (Function.update s.objs o₁ ob' o).data.kind = K o := by
    intro o₁ ob' hob o
    by_cases ho : o = o₁
    · subst ho; rw [Function.update_self, hob, hk]
    · rw [Function.update_of_ne ho, hk]
  rcases System.next_cases h with ⟨o₁, op, -, hth, hen, -, rfl⟩ | ⟨hs, all, ms, -, hth, rfl⟩ |
    ⟨o₁, op, a, ob', r, evs, hth, hact, rfl⟩ | ⟨c, i, w, o₁, ob', r, evs, hth, hpc, ho, hw, rfl⟩ |
    ⟨c, a, now, c', hth, hc, rfl⟩ | ⟨c, a, now, c', hth, hc, rfl⟩
  · exact ⟨hk, hthr nofun hT, hthr nofun hP, hS⟩
  · refine ⟨hk, hthr ?_ hT, hthr ?_ hP, hS⟩
    · rintro c ⟨⟩; exact Multi.tracked_init hs all ms
    · rintro c ⟨⟩ -; exact fun j => rfl
  · have hth' : ∀ {P : Multi → Prop} c, System.ofRes o₁ r = .multi c → P c := by
      cases r <;> exact nofun
    exact ⟨hkind _ _ (Op.act_kind hact), hthr hth' hT, hthr hth' hP, hS⟩
  · refine ⟨hkind _ _ (WaitDone.step_kind hw), hthr ?_ hT, hthr ?_ hP, hS⟩
    · rintro c' ⟨⟩; exact (hT _ _ hth).afterWaitDone hpc ho (hk o₁) hw
    · rintro c' ⟨⟩ hb
      have hb' : c.bWaitAll = b := by rw [← hb]; rcases r with _ | (_ | _) <;> rfl
      exact (hP _ _ hth hb').afterWaitDone (hT _ _ hth) hpc hw
        (hG _ (rechecking_eq hth hpc ho) hb').1 (hG _ (rechecking_eq hth hpc ho) hb').2
  · refine ⟨hk, hthr ?_ hT, hthr ?_ hP, hS⟩
    · rintro c ⟨⟩; exact (hT _ _ hth).step hc
    · rintro c ⟨⟩ hb
      exact (hP _ _ hth ((Multi.step_ghosts hc (.inl rfl)).2.1 ▸ hb)).step (hT _ _ hth) hc
  · refine ⟨hk, hthr nofun hT, hthr nofun hP, fun c₁ hc₁ hb hn => ?_⟩
    rcases List.mem_cons.1 hc₁ with rfl | hc₁
    · exact (hP _ _ hth ((Multi.step_ghosts hc (.inr rfl)).2.1 ▸ hb)).settled (hT _ _ hth) hc hn
    · exact hS c₁ hc₁ hb hn

/-- Thread `t` executes `n` steps of its call. -/
def steps (t : Tid) (n : ℕ) : List (Tid × SysAct) := List.replicate n (t, .step .run 0)

/-! ### `bWaitAll` -/

/-- **`bWaitAll` waits are all-or-nothing** in every run in which the loop that checks the states
again reads bytes only for calls that will report success and does not fail half way. -/
theorem all_or_nothing (objs : ObjId → Obj) (ls : List (Tid × SysAct))
    (hG : System.lts.AllSteps (RecheckOk true) (System.init objs) ls) :
    System.lts.AllStates (fun s => ∀ c ∈ s.returned, c.AllOrNothing) (System.init objs) ls := by
  refine LTS.allStates_of_allSteps (I := Inv (fun o => (objs o).data.kind) true) ?_
    (fun s l s' hI hG hn => hI.next hG hn) (inv_init objs true) hG
  intro s hI c hc hall hn
  have hS := hI.settled c hc hall hn
  refine ⟨fun hr j => ?_, fun hr j o ho => ?_⟩
  · by_contra hj
    exact (hS.touched j (by simpa using hj)).false hn (.inl hr)
  · exact hS.acquired j o ⟨Multi.lt_nCount ho, by rw [hall, hr]; rfl⟩ ho

/-- A semaphore with one unit, and an auto-reset event that is not signalled. -/
def semaphoreAndEvent : ObjId → Obj
  | 0 => Obj.createSemaphore 1 1
  | _ => Obj.createEvent false false

/-- Thread 1 waits for both objects; the event is set while it waits. -/
def setWhileWaiting : List (Tid × SysAct) :=
  [(1, .waitMultiple [some 0, some 1] true 10)] ++ steps 1 6 ++
    [(2, .call 1 .setEvent), (2, .step .run 0)] ++ steps 1 11

theorem all_or_nothing_setWhileWaiting :
    (∃ s, System.lts.run (System.init semaphoreAndEvent) setWhileWaiting = some s ∧
      s.returned.map Multi.nRet = [WAIT_OBJECT_0]) ∧
    System.lts.AllStates (fun s => ∀ c ∈ s.returned, c.AllOrNothing)
      (System.init semaphoreAndEvent) setWhileWaiting :=
  ⟨⟨_, rfl, rfl⟩, all_or_nothing _ _ (by decide +kernel)⟩

/-- Thread 1 waits for both objects until its time-out. -/
def waitUntilTimeout : List (Tid × SysAct) :=
  [(1, .waitMultiple [some 0, some 1] true 10)] ++ steps 1 6 ++ [(1, .step .timeout 10)] ++
    steps 1 7

/-- **A `bWaitAll` wait that times out can take signals**: here the unit of the semaphore. -/
theorem timeout_takes : ∃ s c, System.lts.run (System.init semaphoreAndEvent) waitUntilTimeout =
      some s ∧ s.returned = [c] ∧ c.bWaitAll = true ∧ c.nRet = WAIT_TIMEOUT ∧
      c.touched 0 = true ∧ (s.objs 0).data = .semaphore 0 1 ∧ (s.objs 0).tokens = 0 ∧
      ¬ c.AllOrNothing := by
  refine ⟨_, _, rfl, rfl, rfl, rfl, rfl, rfl, rfl, fun h => ?_⟩
  exact absurd ((h rfl (by decide)).1 rfl 0) (by decide)

/-! ### Waits for any object -/

/-- **A wait for any object consumes only the object it reports** in every run in which the loop
that checks the states again reads bytes only for the entry to be reported and does not fail half
way. -/
theorem only_reported (objs : ObjId → Obj) (ls : List (Tid × SysAct))
    (hG : System.lts.AllSteps (RecheckOk false) (System.init objs) ls) :
    System.lts.AllStates (fun s => ∀ c ∈ s.returned, c.OnlyReported) (System.init objs) ls := by
  refine LTS.allStates_of_allSteps (I := Inv (fun o => (objs o).data.kind) false) ?_
    (fun s l s' hI hG hn => hI.next hG hn) (inv_init objs false) hG
  intro s hI c hc hall hn hvalid i hi hr
  have hS := hI.settled c hc hall hn
  have hrep : c.Reports i := ⟨hi, by rw [hall]; exact hr⟩
  obtain ⟨o, ho⟩ := Option.isSome_iff_exists.1 (hvalid i hi)
  refine ⟨hS.acquired i o hrep ho, fun j hj => ?_⟩
  by_contra htou
  have hj' := (hS.touched j (by simpa using htou)).2
  rw [hall, hr] at hj'
  exact hj (Nat.add_left_cancel hj').symm

/-- Thread 1 waits for any of the two objects, of which one is signalled. -/
def waitAny : List (Tid × SysAct) :=
  [(1, .waitMultiple [some 0, some 1] false 10)] ++ steps 1 12

/-- An auto-reset event that is not signalled, and a waitable timer. -/
def eventAndTimer : ObjId → Obj
  | 0 => Obj.createEvent false false
  | _ => Obj.createWaitableTimer false

/-- The timer is due while thread 1 waits for any of the two objects; then it is cancelled. -/
def dueWhileWaiting : List (Tid × SysAct) :=
  [(1, .waitMultiple [some 0, some 1] false 10)] ++ steps 1 3 ++
    [(2, .call 1 .fireTimer), (2, .step .run 0)] ++ steps 1 7 ++
    [(3, .call 1 .cancelTimer), (3, .step .run 0)]

theorem only_reported_dueWhileWaiting :
    (∃ s, System.lts.run (System.init eventAndTimer) dueWhileWaiting = some s ∧
      s.returned.map Multi.nRet = [WAIT_OBJECT_0 + 1]) ∧
    System.lts.AllStates (fun s => ∀ c ∈ s.returned, c.OnlyReported)
      (System.init eventAndTimer) dueWhileWaiting :=
  ⟨⟨_, rfl, rfl⟩, only_reported _ _ (by decide +kernel)⟩

/-- Two auto-reset events, both signalled. -/
def twoEvents : ObjId → Obj := fun _ => Obj.createEvent false true

/-- **A wait for any object can consume what it does not report**: here both events. -/
theorem takes_unreported : ∃ s c, System.lts.run (System.init twoEvents) waitAny = some s ∧
      s.returned = [c] ∧ c.bWaitAll = false ∧ c.nRet = WAIT_OBJECT_0 + 0 ∧ c.acquired 0 = 1 ∧
      c.touched 1 = true ∧ (s.objs 1).tokens = 0 ∧ ¬ c.OnlyReported := by
  refine ⟨_, _, rfl, rfl, rfl, rfl, rfl, rfl, rfl, fun h => ?_⟩
  exact absurd ((h rfl (by decide) (by decide) 0 (by decide) rfl).2 1 (by decide)) (by decide)

end WaitMultiple

end Sync

end Swinx
