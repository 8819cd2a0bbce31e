import Swinx.Sync.Single
import Mathlib.Data.Fintype.Basic

/-!
# Objects, threads and `WaitForMultipleObjects`

`Multi` is a call of `WaitForMultipleObjects`: its arguments, its local variables and a program
counter; `Multi.step` executes the steps that do not touch an object, and `System.next` the whole
system of objects and threads.  `acquired` and `touched` are ghost variables: how often
`onWaitDone` of an entry returned true in this call, and whether a step of this call on an entry
changed the bytes or the data of its object.

Seen from a single object the system is the one of `Single` (`System.view_simulates`), so what
holds there of every run of events, semaphores and mutexes holds here (`System.view_reachable`).
-/

namespace Swinx

namespace Sync

open Function (update update_apply update_eq_self update_of_ne)

/-- Objects are numbered. -/
abbrev ObjId := ℕ

/-- The value `MAXIMUM_WAIT_OBJECTS`. -/
def MAXIMUM_WAIT_OBJECTS : ℕ := 64
/-- The value `INFINITE`. -/
def INFINITE : ℕ := 0xFFFFFFFF

/-- Progress inside `WaitForMultipleObjects`. -/
inductive PC where
  /-- Before the loop that takes the handles. -/
  | start
  /-- At the label `start_wait`. -/
  | restart
  /-- At the head of the `for (;;)` loop. -/
  | loop
  /-- In `selectfds`. -/
  | select
  /-- After `selectfds`. -/
  | evaluate
  /-- At the head of round `i` of the loop that checks the states again. -/
  | recheck (i : ℕ)
  /-- In `onWaitDone` of entry `i`. -/
  | onWaitDone (i : ℕ) (w : WaitDone)
  /-- At `if (!bValid)`, with `bValid` false. -/
  | invalid
  deriving DecidableEq, Repr

/-- A call of `WaitForMultipleObjects`. -/
structure Multi where
  /-- The handles; `none` is `INVALID_HANDLE_VALUE`. -/
  lpHandles : List (Option ObjId)
  bWaitAll : Bool
  dwMilliseconds : ℕ
  states : ℕ → Bool
  dwToInit : ℕ
  ts1_all : ℕ
  ts1 : ℕ
  nRet : ℕ
  /-- Ghost: how often `onWaitDone` of the entry returned true. -/
  acquired : ℕ → ℕ
  /-- Ghost: this call has changed the bytes or the data of the entry's object. -/
  touched : ℕ → Bool
  pc : PC

namespace Multi

/-- The number of handles. -/
def nCount (c : Multi) : ℕ := c.lpHandles.length

/-- The object of entry `i`, if there is one. -/
def handle (c : Multi) (i : ℕ) : Option ObjId := c.lpHandles[i]?.join

/-- A call that starts. -/
def init (lpHandles : List (Option ObjId)) (bWaitAll : Bool) (dwMilliseconds : ℕ) : Multi where
  lpHandles := lpHandles
  bWaitAll := bWaitAll
  dwMilliseconds := dwMilliseconds
  states := fun _ => false
  dwToInit := 0
  ts1_all := 0
  ts1 := 0
  nRet := 0
  acquired := fun _ => 0
  touched := fun _ => false
  pc := .start

/-- `select` reports entry `i`: its descriptor is in the set and ready. -/
def selects (c : Multi) (objs : ObjId → Obj) (i : ℕ) : Bool :=
  !c.states i && match c.handle i with
    | some o => (objs o).ready
    | none => false

/-- How many descriptors `select` reports. -/
def selectCount (c : Multi) (objs : ObjId → Obj) : ℕ :=
  (List.range c.nCount).countP (c.selects objs)

/-- The loop that looks for the first entry whose state is set. -/
def firstReady (c : Multi) : Option ℕ := (List.range c.nCount).find? c.states

/-- The loop that looks for an entry whose state is not set. -/
def allReady (c : Multi) : Bool := (List.range c.nCount).all c.states

/-- The call goes on, or returns `nRet`. -/
inductive Res where
  | more (c : Multi)
  | ret (c : Multi)

/-- One step of the call outside `onWaitDone`; `now` is what `GetTickCount64` returns in it. -/
def step (objs : ObjId → Obj) (c : Multi) (a : Act) (now : ℕ) : Option Res :=
  match c.pc, a with
  | .start, .run =>
    if MAXIMUM_WAIT_OBJECTS < c.nCount then some (.ret { c with nRet := 0 })
    else some (.more
      { c with states := fun i => decide (i < c.nCount) && (c.handle i).isNone, pc := .restart })
  | .restart, .run =>
    some (.more { c with dwToInit := c.dwMilliseconds, ts1_all := now, nRet := 0, pc := .loop })
  | .loop, .run => some (.more { c with ts1 := now, pc := .select })
  | .select, .run =>
    if c.selectCount objs = 0 then none
    else some (.more
      { c with
        states := fun i => c.states i || (decide (i < c.nCount) && c.selects objs i)
        nRet := c.selectCount objs
        pc := .evaluate })
  | .select, .timeout =>
    if c.selectCount objs = 0 ∧ c.dwMilliseconds ≠ INFINITE then
      some (.more { c with nRet := WAIT_TIMEOUT, pc := .recheck 0 })
    else none
  -- `nRet` is unsigned: the `-1` of `selectfds` is not `<= 0`
  | .select, .error => some (.more { c with nRet := WAIT_FAILED, pc := .evaluate })
  | .evaluate, .run =>
    if !c.bWaitAll then
      some (.more { c with nRet := c.firstReady.getD c.nRet, pc := .recheck 0 })
    else if c.allReady then some (.more { c with nRet := WAIT_OBJECT_0, pc := .recheck 0 })
    else if c.dwMilliseconds = INFINITE then some (.more { c with pc := .loop })
    else if c.dwMilliseconds < now - c.ts1 then
      some (.more { c with nRet := WAIT_TIMEOUT, pc := .recheck 0 })
    else
      some (.more { c with dwMilliseconds := c.dwMilliseconds - (now - c.ts1), pc := .loop })
  -- `nRet >= WAIT_OBJECT_0` holds of every `nRet`
  | .recheck i, .run =>
    if i < c.nCount then
      if c.states i && (c.handle i).isSome then some (.more { c with pc := .onWaitDone i .enter })
      else some (.more { c with pc := .recheck (i + 1) })
    else some (.ret c)
  | .invalid, .run =>
    if c.dwToInit = INFINITE then
      if c.nRet = WAIT_TIMEOUT then some (.ret c) else some (.more { c with pc := .restart })
    else if c.dwToInit < now - c.ts1_all then some (.ret { c with nRet := WAIT_TIMEOUT })
    else if c.nRet = WAIT_TIMEOUT then some (.ret c)
    else
      some (.more
        { c with dwMilliseconds := c.dwToInit - (now - c.ts1_all), pc := .restart })
  | _, _ => none

/-- The call after a step of `onWaitDone` of entry `i`, which changed its object or did not. -/
def afterWaitDone (c : Multi) (i : ℕ) (changed : Bool) (r : WaitDone.Res) : Multi :=
  let c := { c with touched := update c.touched i (c.touched i || changed) }
  match r with
  | .more w => { c with pc := .onWaitDone i w }
  | .done true =>
    { c with acquired := update c.acquired i (c.acquired i + 1), pc := .recheck (i + 1) }
  | .done false => { c with states := update c.states i false, pc := .invalid }

theorem afterWaitDone_touched (c : Multi) (i j : ℕ) (b : Bool) (r : WaitDone.Res) :
    (c.afterWaitDone i b r).touched j = if j = i then c.touched i || b else c.touched j := by
  rcases r with _ | (_ | _) <;> simp [afterWaitDone, update_apply]

theorem afterWaitDone_acquired (c : Multi) (i j : ℕ) (b : Bool) (r : WaitDone.Res) :
    (c.afterWaitDone i b r).acquired j =
      if j = i ∧ r = .done true then c.acquired i + 1 else c.acquired j := by
  rcases r with _ | (_ | _) <;> simp [afterWaitDone, update_apply]

/-- Where the call is after a step of `onWaitDone` of entry `i`. -/
theorem afterWaitDone_pc (c : Multi) (i : ℕ) (b : Bool) (r : WaitDone.Res) :
    (c.afterWaitDone i b r).pc = match r with
      | .more w => .onWaitDone i w
      | .done true => .recheck (i + 1)
      | .done false => .invalid := by
  rcases r with _ | (_ | _) <;> rfl

@[simp] theorem afterWaitDone_handle (c : Multi) (i j : ℕ) (b : Bool) (r : WaitDone.Res) :
    (c.afterWaitDone i b r).handle j = c.handle j := by
  rcases r with _ | (_ | _) <;> rfl

theorem step_pc {objs : ObjId → Obj} {c : Multi} {a : Act} {now : ℕ} {r : Res}
    (h : c.step objs a now = some r) : (∀ i w, c.pc ≠ .onWaitDone i w) ∧
      ∀ c', r = .more c' → c'.lpHandles = c.lpHandles ∧
        ((∀ i w, c'.pc ≠ .onWaitDone i w) ∨
          ∃ i o, c'.pc = .onWaitDone i .enter ∧ c.handle i = some o) := by
  unfold step at h
  split at h <;> (try split_ifs at h) <;> cases h <;> simp_all [Option.isSome_iff_exists]

end Multi

/-- What a thread does. -/
inductive Thr where
  /-- Not inside a call. -/
  | idle
  /-- Inside a call on the object `o`. -/
  | single (o : ObjId) (op : Op)
  /-- Inside `WaitForMultipleObjects`. -/
  | multi (c : Multi)

/-- The objects, the threads, the effects so far and the finished `WaitForMultipleObjects`. -/
structure System where
  objs : ObjId → Obj
  thr : Tid → Thr
  /-- The effects on the objects, newest first. -/
  hist : List (ObjId × Tid × Ev)
  /-- The calls of `WaitForMultipleObjects` that have returned, newest first. -/
  returned : List Multi

/-- What the environment decides in a step. -/
inductive SysAct where
  /-- Call `SetEvent`, `WaitForSingleObject`, … on `o`. -/
  | call (o : ObjId) (op : Op)
  /-- Call `WaitForMultipleObjects`. -/
  | waitMultiple (lpHandles : List (Option ObjId)) (bWaitAll : Bool) (dwMilliseconds : ℕ)
  /-- Execute the next step of the call, at time `now`. -/
  | step (a : Act) (now : ℕ)

namespace System

/-- Nothing is going on. -/
def init (objs : ObjId → Obj) : System := ⟨objs, fun _ => .idle, [], []⟩

/-- What a thread does after a step of a call on `o`. -/
def ofRes (o : ObjId) : Op.Res → Thr
  | .more op => .single o op
  | .ret _ => .idle

/-- The state after a step of `t` on the object `o`. -/
def write (s : System) (t : Tid) (o : ObjId) (ob' : Obj) (r : Op.Res) (evs : List Ev) (th : Thr) :
    System :=
  { s with
    objs := update s.objs o ob'
    thr := update s.thr t th
    hist := (Single.tag t r evs).map (o, ·) ++ s.hist }

/-- One step of one thread. -/
def next (s : System) (l : Tid × SysAct) : Option System :=
  match s.thr l.1, l.2 with
  | .idle, .call o op =>
    if op.isEntry && decide (op ≠ .recheck .enter) then
      some { s with thr := update s.thr l.1 (.single o op) }
    else none
  | .idle, .waitMultiple hs all ms =>
    some { s with thr := update s.thr l.1 (.multi (.init hs all ms)) }
  | .single o op, .step a _ =>
    (op.act l.1 (s.objs o) a).map fun x => s.write l.1 o x.1 x.2.1 x.2.2 (ofRes o x.2.1)
  | .multi c, .step a now =>
    match c.pc, a with
    | .onWaitDone i w, .run =>
      (c.handle i).bind fun o => (w.step l.1 (s.objs o)).map fun x =>
        s.write l.1 o x.1 (Op.ofRecheck x.2.1) x.2.2 (.multi (c.afterWaitDone i
          (decide (x.1.tokens ≠ (s.objs o).tokens ∨ x.1.data ≠ (s.objs o).data)) x.2.1))
    | _, _ =>
      (c.step s.objs a now).map fun
        | .more c' => { s with thr := update s.thr l.1 (.multi c') }
        | .ret c' => { s with
            thr := update s.thr l.1 .idle
            returned := c' :: s.returned }
  | _, _ => none

/-- The system as a transition system. -/
def lts : LTS System (Tid × SysAct) := ⟨next⟩

@[simp] theorem lts_next (s : System) (l : Tid × SysAct) : lts.next s l = s.next l := rfl

/-- **What a step can do.** -/
theorem next_cases {s s' : System} {l : Tid × SysAct} (h : s.next l = some s') :
    (∃ o op, l.2 = .call o op ∧ s.thr l.1 = .idle ∧ op.isEntry = true ∧ op ≠ .recheck .enter ∧
      s' = { s with thr := update s.thr l.1 (.single o op) }) ∨
    (∃ hs all ms, l.2 = .waitMultiple hs all ms ∧ s.thr l.1 = .idle ∧
      s' = { s with thr := update s.thr l.1 (.multi (.init hs all ms)) }) ∨
    (∃ o op a ob' r evs, s.thr l.1 = .single o op ∧
      op.act l.1 (s.objs o) a = some (ob', r, evs) ∧ s' = s.write l.1 o ob' r evs (ofRes o r)) ∨
    (∃ c i w o ob' r evs, s.thr l.1 = .multi c ∧ c.pc = .onWaitDone i w ∧ c.handle i = some o ∧
      w.step l.1 (s.objs o) = some (ob', r, evs) ∧
      s' = s.write l.1 o ob' (Op.ofRecheck r) evs (.multi (c.afterWaitDone i
        (decide (ob'.tokens ≠ (s.objs o).tokens ∨ ob'.data ≠ (s.objs o).data)) r))) ∨
    (∃ c a now c', s.thr l.1 = .multi c ∧ c.step s.objs a now = some (.more c') ∧
      s' = { s with thr := update s.thr l.1 (.multi c') }) ∨
    (∃ c a now c', s.thr l.1 = .multi c ∧ c.step s.objs a now = some (.ret c') ∧
      s' = { s with thr := update s.thr l.1 .idle, returned := c' :: s.returned }) := by
  unfold next at h
  split at h
  · rename_i o op hth hl
    split_ifs at h with hc
    simp only [Bool.and_eq_true, decide_eq_true_eq] at hc
    exact .inl ⟨o, op, hl, hth, hc.1, hc.2, (Option.some.inj h).symm⟩
  · rename_i hs all ms hth hl
    exact .inr (.inl ⟨hs, all, ms, hl, hth, (Option.some.inj h).symm⟩)
  · rename_i o op a now hth hl
    obtain ⟨⟨ob', r, evs⟩, hact, rfl⟩ := Option.map_eq_some_iff.1 h
    exact .inr (.inr (.inl ⟨o, op, a, ob', r, evs, hth, hact, rfl⟩))
  · rename_i c a now hth hl
    split at h
    · rename_i i w hpc
      obtain ⟨o, ho, h⟩ := Option.bind_eq_some_iff.1 h
      obtain ⟨⟨ob', r, evs⟩, hw, rfl⟩ := Option.map_eq_some_iff.1 h
      exact .inr (.inr (.inr (.inl ⟨c, i, w, o, ob', r, evs, hth, hpc, ho, hw, rfl⟩)))
    · obtain ⟨r, hr, he⟩ := Option.map_eq_some_iff.1 h
      cases r with
      | more c' => exact .inr (.inr (.inr (.inr (.inl ⟨c, _, now, c', hth, hr, he.symm⟩))))
      | ret c' => exact .inr (.inr (.inr (.inr (.inr ⟨c, _, now, c', hth, hr, he.symm⟩))))
  · cases h

theorem next_thr {s s' : System} {l : Tid × SysAct} (h : s.next l = some s') {u : Tid}
    (hu : u ≠ l.1) : s'.thr u = s.thr u := by
  rcases next_cases h with ⟨_, _, _, _, _, _, rfl⟩ | ⟨_, _, _, _, _, rfl⟩ |
    ⟨_, _, _, _, _, _, _, _, rfl⟩ | ⟨_, _, _, _, _, _, _, _, _, _, _, rfl⟩ |
    ⟨_, _, _, _, _, _, rfl⟩ | ⟨_, _, _, _, _, _, rfl⟩ <;> exact update_of_ne hu _ _

/-- The call on `o` that a thread is in. -/
def opOn (o : ObjId) : Thr → Option Op
  | .idle => none
  | .single o' op => if o' = o then some op else none
  | .multi c =>
    match c.pc with
    | .onWaitDone i w => if c.handle i = some o then some (.recheck w) else none
    | _ => none

/-- The effects on `o`. -/
def histOn (o : ObjId) (h : List (ObjId × Tid × Ev)) : List (Tid × Ev) :=
  h.filterMap fun x => if x.1 = o then some x.2 else none

/-- The system as seen from the object `o`. -/
def view (o : ObjId) (s : System) : Single :=
  ⟨s.objs o, fun t => opOn o (s.thr t), histOn o s.hist⟩

theorem view_op (o : ObjId) (s : System) (t : Tid) : (view o s).op t = opOn o (s.thr t) := rfl

theorem histOn_write (s : System) (t : Tid) (o o' : ObjId) (ob' : Obj) (r : Op.Res)
    (evs : List Ev) (th : Thr) : histOn o' (s.write t o ob' r evs th).hist =
      (if o = o' then Single.tag t r evs else []) ++ histOn o' s.hist := by
  by_cases ho : o = o'
  · subst ho
    simp [write, histOn, List.filterMap_append, List.filterMap_map]
  · simp [write, histOn, List.filterMap_append, List.filterMap_map, ho]

/-- The part of a system that a thread in the state `th` shows to `o`. -/
theorem view_update (s : System) (t : Tid) (th : Thr) (o : ObjId) :
    (fun u => opOn o (update s.thr t th u)) =
      update (fun u => opOn o (s.thr u)) t (opOn o th) := by
  funext u
  by_cases hu : u = t
  · subst hu; simp
  · simp [hu]

theorem opOn_eq_none {c : Multi} (h : ∀ i w, c.pc ≠ .onWaitDone i w) (o : ObjId) :
    opOn o (.multi c) = none := by
  cases hpc : c.pc <;> simp_all [opOn]

theorem opOn_onWaitDone {c : Multi} {i : ℕ} {w : WaitDone} {o : ObjId}
    (hpc : c.pc = .onWaitDone i w) (ho : c.handle i = some o) (o' : ObjId) :
    opOn o' (.multi c) = if o = o' then some (.recheck w) else none := by
  simp [opOn, hpc, ho]

theorem opOn_afterWaitDone {c : Multi} {i : ℕ} {o : ObjId} (ho : c.handle i = some o) (b : Bool)
    (r : WaitDone.Res) (o' : ObjId) : opOn o' (.multi (c.afterWaitDone i b r)) =
      if o = o' then (Op.ofRecheck r).toOp else none := by
  rcases r with w | (_ | _)
  · exact opOn_onWaitDone rfl (by simpa using ho) o'
  · split_ifs <;> rfl
  · split_ifs <;> rfl

theorem view_write {s : System} {t : Tid} {o o' : ObjId} {op : Op} {a : Act} {ob' : Obj}
    {r : Op.Res} {evs : List Ev} {th : Thr} (hop : ∀ o₁, opOn o₁ (s.thr t) =
      if o = o₁ then some op else none) (hact : op.act t (s.objs o) a = some (ob', r, evs))
    (hth : ∀ o₁, opOn o₁ th = if o = o₁ then r.toOp else none) :
    Single.lts.Reachable (view o' s) (view o' (s.write t o ob' r evs th)) := by
  have hobj : (s.write t o ob' r evs th).objs = update s.objs o ob' := rfl
  have hthr : (s.write t o ob' r evs th).thr = update s.thr t th := rfl
  have hview : view o' (s.write t o ob' r evs th) = ⟨update s.objs o ob' o',
      update (view o' s).op t (opOn o' th),
      (if o = o' then Single.tag t r evs else []) ++ (view o' s).hist⟩ := by
    rw [view, hobj, hthr, view_update, histOn_write]
    rfl
  by_cases ho : o = o'
  · subst ho
    have hop' : (view o s).op t = some op := by simpa [view_op] using hop o
    refine .of_next (l := (t, a)) ?_
    rw [Single.lts_next, Single.next_of_act hop' hact, hview]
    simp [hth]
  · have hsame : update (view o' s).op t (opOn o' th) = (view o' s).op := by
      have h1 : (view o' s).op t = opOn o' th := by
        rw [hth, if_neg ho]
        simpa [view_op, ho] using hop o'
      rw [← h1, update_eq_self]
    rw [hview, hsame, update_of_ne (Ne.symm ho), if_neg ho]
    exact .refl _

/-- A thread that does not touch an object may only start a call on it. -/
theorem view_update_thr {s : System} {t : Tid} {th : Thr} {o : ObjId} {rs : List Multi}
    (hop : opOn o (s.thr t) = none)
    (hth : opOn o th = none ∨ ∃ op, opOn o th = some op ∧ op.isEntry = true) :
    Single.lts.Reachable (view o s)
      (view o { s with thr := update s.thr t th, returned := rs }) := by
  have hview : view o { s with thr := update s.thr t th, returned := rs } =
      ⟨s.objs o, update (view o s).op t (opOn o th), histOn o s.hist⟩ := by
    rw [view, view_update]
    rfl
  rw [hview]
  rcases hth with hth | ⟨op, hth, hen⟩
  · rw [hth, ← hop]
    have : update (view o s).op t (opOn o (s.thr t)) = (view o s).op :=
      update_eq_self ..
    rw [this]
    exact .refl _
  · refine .of_next (l := (t, .start op)) ?_
    have hnone : (view o s).op t = none := hop
    rw [Single.lts_next, Single.next_of_start hnone hen, hth]
    rfl

/-- **Every object lives in a system of its own.**  The steps of the system are, for each object,
steps of the calls on it. -/
theorem view_simulates (o : ObjId) : lts.Simulates Single.lts (view o) := by
  intro s l s' h
  rcases next_cases h with ⟨o₁, op, -, hth, hen, -, rfl⟩ | ⟨hs, all, ms, -, hth, rfl⟩ |
    ⟨o₁, op, a, ob', r, evs, hth, hact, rfl⟩ | ⟨c, i, w, o₁, ob', r, evs, hth, hpc, ho, hw, rfl⟩ |
    ⟨c, a, now, c', hth, hc, rfl⟩ | ⟨c, a, now, c', hth, hc, rfl⟩
  · refine view_update_thr (by rw [hth]; rfl) ?_
    by_cases ho : o₁ = o
    · exact .inr ⟨op, by simp [opOn, ho], hen⟩
    · exact .inl (by simp [opOn, ho])
  · exact view_update_thr (by rw [hth]; rfl) (.inl rfl)
  · refine view_write (fun o' => by simp [hth, opOn]) hact fun o' => ?_
    cases r <;> simp [ofRes, opOn, Op.Res.toOp]
  · have hact : (Op.recheck w).act l.1 (s.objs o₁) .run = some (ob', Op.ofRecheck r, evs) := by
      simp [Op.act, Op.step, hw]
    refine view_write (fun o' => ?_) hact (opOn_afterWaitDone ho _ r)
    rw [hth, opOn_onWaitDone hpc ho]
  · obtain ⟨hpc, hmore⟩ := Multi.step_pc hc
    obtain ⟨hs, hpc'⟩ := hmore c' rfl
    refine view_update_thr (by rw [hth]; exact opOn_eq_none hpc o) ?_
    rcases hpc' with hpc' | ⟨i, o₁, hpc', ho⟩
    · exact .inl (opOn_eq_none hpc' o)
    · have ho' : c'.handle i = some o₁ := by rw [Multi.handle, hs]; exact ho
      by_cases hoo : o₁ = o
      · exact .inr ⟨.recheck .enter, by rw [opOn_onWaitDone hpc' ho', if_pos hoo], rfl⟩
      · exact .inl (by rw [opOn_onWaitDone hpc' ho', if_neg hoo])
  · obtain ⟨hpc, -⟩ := Multi.step_pc hc
    exact view_update_thr (by rw [hth]; exact opOn_eq_none hpc o) (.inl rfl)

theorem view_reachable {objs : ObjId → Obj} {s : System} (h : lts.Reachable (init objs) s)
    (o : ObjId) : Single.lts.Reachable (Single.init (objs o)) (view o s) :=
  (view_simulates o).reachable h

end System

end Sync

end Swinx
