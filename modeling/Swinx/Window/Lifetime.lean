import Mathlib
import Swinx.LTS.Basic
import Swinx.LTS.Sum
import Swinx.Posix.RecursiveMutex

/-!
# The lifetime of a window object

`WndMgr` maps window handles to `_Window` objects, under a mutex.  An object counts its references
in `cRef`, is locked by a mutex of its own, and deletes itself with the last reference.  A `WndObj`
holds one lock and one reference.  `get_win_ptr_and_lock` takes a reference under the mutex of the
map, and locks the object only when it has left that mutex.

The model runs any threads, each with its variables of type `WndObj`, and interleaves the accesses
to the map, to a count and to a mutex one by one.  An access to an object that does not exist, an
unlock by a thread that does not own the mutex, and the deletion of an object that is locked are
faults.  The address of a deleted object may be used again.  The deletion is one step; what
`~_Window` calls (the drop target, `DestroyMenu`) is left out.

* `Inv.next` — a step keeps the accounts.
* `window_lifetime` — no run has a fault; a `WndObj` has its object to itself; no object is lost.
* `map_mutex_released` — who owns the mutex of the map is not blocked, and soon leaves it or comes
  to the deletion of a window.
-/

namespace Swinx

namespace WndObj

open Function (update update_of_ne update_self)

/-- A `_Window`: its reference count and the mutex that it is. -/
structure Win (τ : Type*) where
  /-- The references. -/
  cRef : ℤ
  mutex : RecursiveMutex τ

/-- What follows a `Release`. -/
inductive Cont (ν : Type*)
  /-- The caller returns. -/
  | ret
  /-- In `x = y`, the pointer of `y` is read. -/
  | assign (x y : ν)
  /-- In `freeWindow`, the mutex of the map is unlocked. -/
  | unlockMap
  deriving DecidableEq, Repr

/-- Where a thread is; `x`, `y` are variables of type `WndObj`. -/
inductive Pc (ν η α : Type*)
  | idle
  /-- In `get_win_ptr_and_lock`, with the mutex of the map, before `find`. -/
  | find (x : ν) (hWnd : η)
  /-- Before the `AddRef` of the object found. -/
  | addRef (x : ν) (w : α)
  /-- Before the mutex of the map is unlocked. -/
  | leave (x : ν) (w : α)
  /-- The map is done with; its mutex is still to unlock. -/
  | unlockMap
  /-- In `Lock`, for `x`, before `CountMutex::lock`; `temp`: a reference is to be given back. -/
  | lock (x : ν) (w : α) (temp : Bool)
  /-- In `Lock`, before `AddRef`. -/
  | locked (x : ν) (w : α) (temp : Bool)
  /-- In `Release`, before the decrement. -/
  | release (w : α) (k : Cont ν)
  /-- In `Release`, before `delete this`. -/
  | delete (w : α) (k : Cont ν)
  /-- In the copy constructor or in `operator=`, before `src.wnd` is read. -/
  | assign (x y : ν)
  /-- In `insertWindow`, with the mutex of the map. -/
  | insert (hWnd : η)
  /-- In `freeWindow`, with the mutex of the map, before `find`. -/
  | erase (hWnd : η)
  deriving DecidableEq, Repr

/-- The thread goes on. -/
def Cont.pc {ν η α : Type*} : Cont ν → Pc ν η α
  | .ret => .idle
  | .assign x y => .assign x y
  | .unlockMap => .unlockMap

/-- A thread. -/
structure Thread (ν η α : Type*) where
  pc : Pc ν η α
  /-- Its variables of type `WndObj`. -/
  objs : ν → Option α
  /-- The object that it has made by `new`, and has not inserted. -/
  made : Option α

/-- The windows and the threads. -/
structure State (τ ν η α : Type*) where
  wndMapMutex : RecursiveMutex τ
  /-- The windows by handle. -/
  wndMap : η → Option α
  /-- What exists at an address. -/
  wins : α → Option (Win τ)
  thr : τ → Thread ν η α
  /-- Something undefined has been done. -/
  fault : Bool

/-- A function that a thread calls. -/
inductive Call (ν η α : Type*)
  /-- `new _Window`, which is given the address `w`. -/
  | create (w : α)
  /-- `delete` of an object that has not been inserted. -/
  | abandon
  | insertWindow (hWnd : η)
  /-- `WndObj x = WndMgr::fromHwnd(hWnd)` -/
  | fromHwnd (x : ν) (hWnd : η)
  /-- `WndObj x(y)` -/
  | copy (x y : ν)
  /-- `x = y`; `x = x` leaves `x` null. -/
  | assign (x y : ν)
  /-- `x.reset()`, or the destructor of `x`. -/
  | reset (x : ν)
  | freeWindow (hWnd : η)
  deriving DecidableEq, Repr

variable {τ ν η α : Type*}

/-- No thread has begun. -/
def init : State τ ν η α :=
  ⟨.free, fun _ => none, fun _ => none, fun _ => ⟨.idle, fun _ => none, none⟩, false⟩

section steps

variable [DecidableEq τ] [DecidableEq ν] [DecidableEq η] [DecidableEq α]

namespace State

variable (s : State τ ν η α)

/-- The thread `t` is now `th`. -/
def set (t : τ) (th : Thread ν η α) : State τ ν η α := { s with thr := update s.thr t th }

omit [DecidableEq ν] [DecidableEq η] [DecidableEq α] in
@[simp] theorem set_thr (t : τ) (th : Thread ν η α) : (s.set t th).thr t = th :=
  update_self ..

/-- At the address `w` there is now `win`. -/
def setWin (w : α) (win : Option (Win τ)) : State τ ν η α :=
  { s with wins := update s.wins w win }

/-- Something undefined is done. -/
def toFault : State τ ν η α := { s with fault := true }

/-- An access to the object at `w`. -/
def access (w : α) (f : Win τ → Option (State τ ν η α)) : Option (State τ ν η α) :=
  match s.wins w with
  | some win => f win
  | none => some s.toFault

/-- The thread `t` locks the mutex of the map, or waits. -/
def lockMap (t : τ) (th : Thread ν η α) : Option (State τ ν η α) :=
  (s.wndMapMutex.lock t).map fun m => { s with wndMapMutex := m }.set t th

/-- The thread `t` unlocks the mutex of the map. -/
def unlockMap (t : τ) (th : Thread ν η α) : Option (State τ ν η α) :=
  match s.wndMapMutex.unlock t with
  | some m => some ({ s with wndMapMutex := m }.set t th)
  | none => some s.toFault

/-- The thread `t` deletes the object at `w`. -/
def delete (t : τ) (w : α) (th : Thread ν η α) : Option (State τ ν η α) :=
  s.access w fun win =>
    if win.mutex.owner = none then some ((s.setWin w none).set t th) else some s.toFault

/-- `CountMutex::unlock` of the object at `w`. -/
def unlock (t : τ) (w : α) (th : Thread ν η α) : Option (State τ ν η α) :=
  s.access w fun win =>
    match win.mutex.unlock t with
    | some m => some ((s.setWin w (some ⟨win.cRef, m⟩)).set t th)
    | none => some s.toFault

end State

/-- The next step in the function that the thread `t` has called. -/
def goOn (s : State τ ν η α) (t : τ) : Option (State τ ν η α) :=
  let th := s.thr t
  match th.pc with
  | .idle => none
  | .find x h =>
    match s.wndMap h with
    | some w => some (s.set t { th with pc := .addRef x w })
    | none => some (s.set t { th with pc := .unlockMap })
  | .addRef x w =>
    s.access w fun win =>
      some ((s.setWin w (some ⟨win.cRef + 1, win.mutex⟩)).set t { th with pc := .leave x w })
  | .leave x w => s.unlockMap t { th with pc := .lock x w true }
  | .unlockMap => s.unlockMap t { th with pc := .idle }
  | .lock x w temp =>
    s.access w fun win => (win.mutex.lock t).map fun m =>
      (s.setWin w (some ⟨win.cRef, m⟩)).set t { th with pc := .locked x w temp }
  | .locked x w temp =>
    s.access w fun win =>
      some ((s.setWin w (some ⟨win.cRef + 1, win.mutex⟩)).set t
        { th with
          pc := if temp then .release w .ret else .idle
          objs := update th.objs x (some w) })
  | .release w k =>
    s.access w fun win =>
      some ((s.setWin w (some ⟨win.cRef - 1, win.mutex⟩)).set t
        { th with pc := if win.cRef - 1 = 0 then .delete w k else k.pc })
  | .delete w k => s.delete t w { th with pc := k.pc }
  | .assign x y =>
    match th.objs y with
    | some w => some (s.set t { th with pc := .lock x w false })
    | none => some (s.set t { th with pc := .idle })
  | .insert h =>
    match th.made, s.wndMap h with
    | some w, none =>
      some ({ s with wndMap := update s.wndMap h (some w) }.set t
        { th with pc := .unlockMap, made := none })
    | _, _ => some (s.set t { th with pc := .unlockMap })
  | .erase h =>
    match s.wndMap h with
    | some w =>
      some ({ s with wndMap := update s.wndMap h none }.set t
        { th with pc := .release w .unlockMap })
    | none => some (s.set t { th with pc := .unlockMap })

/-- The first step of a function that the thread `t` calls. -/
def call (s : State τ ν η α) (t : τ) : Call ν η α → Option (State τ ν η α)
  | .create w =>
    let th := s.thr t
    if th.made = none ∧ (s.wins w).isNone then
      some ((s.setWin w (some ⟨1, .free⟩)).set t { th with made := some w })
    else none
  | .abandon =>
    let th := s.thr t
    match th.made with
    | some w => s.delete t w { th with made := none }
    | none => none
  | .insertWindow h =>
    if (s.thr t).made.isSome then s.lockMap t { s.thr t with pc := .insert h } else none
  | .fromHwnd x h =>
    if (s.thr t).objs x = none then s.lockMap t { s.thr t with pc := .find x h } else none
  | .copy x y =>
    if (s.thr t).objs x = none then some (s.set t { s.thr t with pc := .assign x y }) else none
  | .assign x y =>
    let th := s.thr t
    match th.objs x with
    | some w => s.unlock t w ⟨.release w (.assign x y), update th.objs x none, th.made⟩
    | none => some (s.set t { th with pc := .assign x y })
  | .reset x =>
    let th := s.thr t
    match th.objs x with
    | some w => s.unlock t w ⟨.release w .ret, update th.objs x none, th.made⟩
    | none => some s
  | .freeWindow h => s.lockMap t { s.thr t with pc := .erase h }

/-- One step of a thread: it calls a function, or goes on in the one that it has called. -/
def next (s : State τ ν η α) (act : τ × Option (Call ν η α)) : Option (State τ ν η α) :=
  if s.fault then none
  else
    match act.2 with
    | none => goOn s act.1
    | some c => if (s.thr act.1).pc = .idle then call s act.1 c else none

/-- The threads and the windows, as a transition system. -/
def system : LTS (State τ ν η α) (τ × Option (Call ν η α)) := ⟨next⟩

end steps

/-! ### The account of a thread -/

section account

variable [DecidableEq α]

/-- How many variables refer to `w`. -/
def held [Fintype ν] (objs : ν → Option α) (w : α) : ℤ := ∑ x, if objs x = some w then 1 else 0

namespace Pc

/-- The references that the thread has taken on its way. -/
def refs (w : α) : Pc ν η α → ℤ
  | .leave _ v | .lock _ v true | .locked _ v true | .release v _ => if v = w then 1 else 0
  | _ => 0

/-- The locks that the thread has taken on its way. -/
def locks (w : α) : Pc ν η α → ℤ
  | .locked _ v _ => if v = w then 1 else 0
  | _ => 0

/-- The thread is about to delete the object. -/
def deletes (w : α) : Pc ν η α → ℤ
  | .delete v _ => if v = w then 1 else 0
  | _ => 0

/-- The thread has the mutex of the map. -/
def inMap : Pc ν η α → Bool
  | .find .. | .addRef .. | .leave .. | .unlockMap | .insert _ | .erase _ => true
  | .release _ .unlockMap | .delete _ .unlockMap => true
  | _ => false

/-- The variable that the thread is about to set. -/
def target : Pc ν η α → Option ν
  | .find x _ | .addRef x _ | .leave x _ | .lock x _ _ | .locked x _ _ | .assign x _ => some x
  | .release _ (.assign x _) | .delete _ (.assign x _) => some x
  | _ => none

/-- The object that the thread copies from a variable. -/
def copies : Pc ν η α → Option α
  | .lock _ w false | .locked _ w false => some w
  | _ => none

/-- The object that the thread has found in the map. -/
def found : Pc ν η α → Option α
  | .addRef _ w => some w
  | _ => none

end Pc

namespace Thread

variable [Fintype ν]

/-- The references to `w` that the thread accounts for. -/
def refs (th : Thread ν η α) (w : α) : ℤ :=
  held th.objs w + (if th.made = some w then 1 else 0) + th.pc.refs w

/-- The locks of `w` that the thread accounts for. -/
def locks (th : Thread ν η α) (w : α) : ℤ := held th.objs w + th.pc.locks w

/-- A variable that is about to be set is null, and what is copied is in a variable. -/
structure Ok (th : Thread ν η α) : Prop where
  target : ∀ x ∈ th.pc.target, th.objs x = none
  copies : ∀ w ∈ th.pc.copies, ∃ y, th.objs y = some w

end Thread

section held

variable [Fintype ν] {objs : ν → Option α} {x : ν} {v w : α}

theorem held_nonneg (objs : ν → Option α) (w : α) : 0 ≤ held objs w :=
  Finset.sum_nonneg fun x _ => by split_ifs <;> omega

theorem held_pos (h : objs x = some w) : 1 ≤ held objs w := by
  have hle := Finset.single_le_sum (f := fun y => if objs y = some w then (1 : ℤ) else 0)
    (fun y _ => by split_ifs <;> omega) (Finset.mem_univ x)
  rwa [if_pos h] at hle

theorem held_le (objs : ν → Option α) (w : α) : held objs w ≤ Fintype.card ν := by
  have hle : held objs w ≤ ∑ _x : ν, (1 : ℤ) :=
    Finset.sum_le_sum fun x _ => by split_ifs <;> omega
  simpa using hle

theorem held_update [DecidableEq ν] (o : Option α) : held (update objs x o) v =
    held objs v - (if objs x = some v then 1 else 0) + if o = some v then 1 else 0 :=
  sum_update (fun _ o => if o = some v then 1 else 0) objs (Finset.mem_univ x) o

end held

namespace Pc

variable {p : Pc ν η α} {w : α}

theorem refs_nonneg : 0 ≤ p.refs w := by
  unfold refs
  split <;> (try split_ifs) <;> omega

theorem refs_le : p.refs w ≤ 1 := by
  unfold refs
  split <;> (try split_ifs) <;> omega

theorem locks_nonneg : 0 ≤ p.locks w := by
  unfold locks
  split <;> (try split_ifs) <;> omega

theorem deletes_nonneg : 0 ≤ p.deletes w := by
  unfold deletes
  split <;> (try split_ifs) <;> omega

end Pc

namespace Thread

variable [Fintype ν] {th : Thread ν η α} {w : α}

theorem refs_nonneg : 0 ≤ th.refs w := by
  have h₁ := held_nonneg th.objs w
  have h₂ := th.pc.refs_nonneg (w := w)
  unfold refs
  split_ifs <;> omega

theorem refs_le : th.refs w ≤ Fintype.card ν + 2 := by
  have h₁ := held_le th.objs w
  have h₂ := th.pc.refs_le (w := w)
  unfold refs
  split_ifs <;> omega

theorem refs_pos_of_objs {x : ν} (h : th.objs x = some w) : 1 ≤ th.refs w := by
  have h₁ := held_pos h
  have h₂ := th.pc.refs_nonneg (w := w)
  unfold refs
  split_ifs <;> omega

theorem refs_pos_of_pc (h : th.pc.refs w = 1) : 1 ≤ th.refs w := by
  have h₁ := held_nonneg th.objs w
  unfold refs
  split_ifs <;> omega

theorem refs_pos_of_made (h : th.made = some w) : 1 ≤ th.refs w := by
  have h₁ := held_nonneg th.objs w
  have h₂ := th.pc.refs_nonneg (w := w)
  rw [refs, if_pos h]
  omega

omit [DecidableEq α] [Fintype ν] in
theorem Ok.of_none (htarget : th.pc.target = none) (hcopies : th.pc.copies = none) : th.Ok :=
  ⟨by simp [htarget], by simp [hcopies]⟩

theorem Ok.refs_pos_of_copies (hok : th.Ok) (h : th.pc.copies = some w) : 1 ≤ th.refs w := by
  obtain ⟨y, hy⟩ := hok.copies w h
  exact refs_pos_of_objs hy

theorem Ok.locks_eq_zero (hok : th.Ok) (h : th.refs w = 0) : th.locks w = 0 := by
  have h₁ := held_nonneg th.objs w
  have h₂ := th.pc.refs_nonneg (w := w)
  have hheld : held th.objs w = 0 := by
    unfold refs at h
    split_ifs at h <;> omega
  have hpc : th.pc.refs w = 0 := by
    unfold refs at h
    split_ifs at h <;> omega
  rw [locks, hheld, zero_add]
  cases hp : th.pc with
  | locked x v temp =>
    by_cases hv : v = w
    · subst hv
      cases temp with
      | false => exact absurd h (by have := hok.refs_pos_of_copies (by rw [hp]; rfl); omega)
      | true => simp [hp, Pc.refs] at hpc
    · simp [Pc.locks, hv]
  | _ => rfl

end Thread

end account

section invariant

open Classical in
/-- The reference that the map has. -/
noncomputable def mapped (map : η → Option α) (w : α) : ℤ := if ∃ h, map h = some w then 1 else 0

section mapped

variable {map : η → Option α} {w : α}

theorem mapped_of_eq {h : η} (hh : map h = some w) : mapped map w = 1 := if_pos ⟨h, hh⟩

theorem mapped_eq_zero (hh : ∀ h, map h ≠ some w) : mapped map w = 0 := if_neg fun ⟨h, e⟩ => hh h e

theorem mapped_congr {map' : η → Option α} (h : ∀ x, map' x = some w ↔ map x = some w) :
    mapped map' w = mapped map w := by
  by_cases hex : ∃ x, map x = some w
  · obtain ⟨x, hx⟩ := hex
    rw [mapped_of_eq hx, mapped_of_eq ((h x).2 hx)]
  · rw [mapped_eq_zero fun x hx => hex ⟨x, hx⟩, mapped_eq_zero fun x hx => hex ⟨x, (h x).1 hx⟩]

theorem mapped_nonneg (map : η → Option α) (w : α) : 0 ≤ mapped map w := by
  unfold mapped
  split_ifs <;> omega

theorem mapped_le (map : η → Option α) (w : α) : mapped map w ≤ 1 := by
  unfold mapped
  split_ifs <;> omega

end mapped

variable [Fintype τ] [Fintype ν] [DecidableEq α]

/-- The object at `w` has the references and the locks that the map and the threads account for.
It is about to be deleted, by one thread, if and only if it has no reference; the thread that has
made it has the only one until it is inserted. -/
structure Balanced [DecidableEq τ] (map : η → Option α) (thr : τ → Thread ν η α) (w : α)
    (win : Win τ) : Prop where
  /-- Each reference has an owner. -/
  refs : win.cRef = mapped map w + ∑ t, (thr t).refs w
  /-- The last one deletes, once. -/
  deletes : ∑ t, (thr t).pc.deletes w = if win.cRef = 0 then 1 else 0
  own : ∀ t, (win.mutex.own t : ℤ) = (thr t).locks w
  made : ∀ t, (thr t).made = some w → win.cRef = 1

/-- An object is balanced; nothing refers to an address without one. -/
def Account [DecidableEq τ] (map : η → Option α) (thr : τ → Thread ν η α) (w : α) :
    Option (Win τ) → Prop
  | some win => Balanced map thr w win
  | none => mapped map w = 0 ∧ ∀ t, (thr t).refs w = 0 ∧ (thr t).pc.deletes w = 0

/-- How the threads stand to the map and to its mutex. -/
structure Shape [DecidableEq τ] (mutex : RecursiveMutex τ) (map : η → Option α)
    (thr : τ → Thread ν η α) : Prop where
  own : ∀ t, mutex.own t = if (thr t).pc.inMap then 1 else 0
  inj : ∀ h h' w, map h = some w → map h' = some w → h = h'
  found : ∀ t, ∀ w ∈ (thr t).pc.found, ∃ h, map h = some w
  ok : ∀ t, (thr t).Ok

/-- **The invariant.** -/
structure Inv [DecidableEq τ] (s : State τ ν η α) : Prop where
  fault : s.fault = false
  account : ∀ w, Account s.wndMap s.thr w (s.wins w)
  shape : Shape s.wndMapMutex s.wndMap s.thr

variable {map map' : η → Option α} {thr : τ → Thread ν η α} {t : τ} {v w : α}

theorem refs_le_sum (thr : τ → Thread ν η α) (w : α) (t : τ) :
    (thr t).refs w ≤ ∑ u, (thr u).refs w :=
  Finset.single_le_sum (f := fun u => (thr u).refs w) (fun _ _ => Thread.refs_nonneg)
    (Finset.mem_univ t)

theorem refs_eq_zero (h : ∑ u, (thr u).refs w = 0) (t : τ) : (thr t).refs w = 0 :=
  (Finset.sum_eq_zero_iff_of_nonneg fun _ _ => Thread.refs_nonneg).1 h t (Finset.mem_univ t)

omit [Fintype ν] in
theorem deletes_eq_zero (h : ∑ u, (thr u).pc.deletes w = 0) (t : τ) : (thr t).pc.deletes w = 0 :=
  (Finset.sum_eq_zero_iff_of_nonneg fun _ _ => Pc.deletes_nonneg).1 h t (Finset.mem_univ t)

variable [DecidableEq τ] {mutex mutex' : RecursiveMutex τ} {th : Thread ν η α} {win win' : Win τ}
  {o : Option (Win τ)}

omit [Fintype ν] [DecidableEq α] in
theorem sum_set (F : Thread ν η α → ℤ) :
    ∑ u, F (update thr t th u) = ∑ u, F (thr u) - F (thr t) + F th :=
  sum_update (fun _ th => F th) thr (Finset.mem_univ t) th

namespace Balanced

theorem set (h : Balanced map thr w win) {th₀ : Thread ν η α} (hth : thr t = th₀)
    (hrefs : win'.cRef = win.cRef + (mapped map' w - mapped map w) + (th.refs w - th₀.refs w))
    (hdeletes : th.pc.deletes w - th₀.pc.deletes w =
      (if win'.cRef = 0 then 1 else 0) - if win.cRef = 0 then 1 else 0)
    (hown : (win'.mutex.own t : ℤ) = win.mutex.own t + (th.locks w - th₀.locks w))
    (hother : ∀ u, u ≠ t → win'.mutex.own u = win.mutex.own u)
    (hmade' : th.made = some w → th₀.made = some w)
    (hmade : ∀ u, (thr u).made = some w → win'.cRef = 1) :
    Balanced map' (update thr t th) w win' := by
  subst hth
  obtain ⟨hc, hd, hl, -⟩ := h
  refine ⟨?_, ?_, fun u => ?_, fun u hu => ?_⟩
  · rw [sum_set fun th => th.refs w]
    omega
  · rw [sum_set fun th => th.pc.deletes w]
    omega
  · by_cases hu : u = t
    · rw [hu, hown, hl, update_self]
      omega
    · rw [hother u hu, hl, update_of_ne hu]
  · by_cases hut : u = t
    · rw [hut, update_self] at hu
      exact hmade t (hmade' hu)
    · rw [update_of_ne hut] at hu
      exact hmade u hu

theorem refs_eq (h : Balanced map thr w win) : win.cRef = mapped map w +
    ∑ t, (if (thr t).made = some w then 1 else 0) +
      ∑ t, (held (thr t).objs w + (thr t).pc.refs w) := by
  have hsplit : ∀ t, (thr t).refs w =
      (if (thr t).made = some w then 1 else 0) + (held (thr t).objs w + (thr t).pc.refs w) := by
    intro t
    rw [Thread.refs]
    ring
  rw [h.refs, Finset.sum_congr rfl fun t _ => hsplit t, Finset.sum_add_distrib, add_assoc]

theorem refs_pos_of_thread (h : Balanced map thr w win) (ht : 1 ≤ (thr t).refs w) :
    1 ≤ win.cRef := by
  have hle := refs_le_sum thr w t
  have hmap := mapped_nonneg map w
  have := h.refs
  omega

theorem refs_pos_of_map (h : Balanced map thr w win) (hmap : mapped map w = 1) : 1 ≤ win.cRef := by
  have hsum : 0 ≤ ∑ u, (thr u).refs w := Finset.sum_nonneg fun _ _ => Thread.refs_nonneg
  have := h.refs
  omega

/-- An object with a reference beside that of its maker has no maker. -/
theorem made_ne (h : Balanced map thr w win)
    (ht : 1 ≤ mapped map w + (held (thr t).objs w + (thr t).pc.refs w)) (u : τ) :
    (thr u).made ≠ some w := by
  intro hu
  -- What the maker has made has one reference, and that is the maker's.
  have hone := h.made u hu
  have hmade := Finset.single_le_sum (f := fun t => if (thr t).made = some w then (1 : ℤ) else 0)
    (fun _ _ => by split_ifs <;> omega) (Finset.mem_univ u)
  have hrest := Finset.single_le_sum (f := fun t => held (thr t).objs w + (thr t).pc.refs w)
    (fun _ _ => add_nonneg (held_nonneg _ _) Pc.refs_nonneg) (Finset.mem_univ t)
  rw [if_pos hu] at hmade
  have hmap := mapped_nonneg map w
  have := h.refs_eq
  omega

end Balanced

/-- A thread accounts for the same references and locks of `v` as before. -/
structure Same (th th' : Thread ν η α) (v : α) : Prop where
  refs : th'.refs v = th.refs v
  deletes : th'.pc.deletes v = th.pc.deletes v
  locks : th'.locks v = th.locks v
  made : th'.made = some v → th.made = some v

theorem Same.of_pc {th th' : Thread ν η α} (hobjs : th'.objs = th.objs) (hmade : th'.made = th.made)
    (hrefs : th'.pc.refs v = th.pc.refs v) (hdeletes : th'.pc.deletes v = th.pc.deletes v)
    (hlocks : th'.pc.locks v = th.pc.locks v) : Same th th' v :=
  ⟨by rw [Thread.refs, Thread.refs, hobjs, hmade, hrefs], hdeletes,
    by rw [Thread.locks, Thread.locks, hobjs, hlocks], fun h => hmade ▸ h⟩

theorem Account.same (h : Account map thr v o) (hmap : mapped map' v = mapped map v)
    (hv : Same (thr t) th v) : Account map' (update thr t th) v o := by
  obtain ⟨hrefs, hdeletes, hlocks, hmade⟩ := hv
  cases o with
  | some win =>
    exact h.set rfl (by omega) (by omega) (by omega) (fun _ _ => rfl) hmade h.made
  | none =>
    refine ⟨hmap.trans h.1, fun u => ?_⟩
    by_cases hu : u = t
    · rw [hu, update_self, hrefs, hdeletes]
      exact h.2 t
    · rw [update_of_ne hu]
      exact h.2 u

theorem Account.of_thread (h : Account map thr w o) (ht : 1 ≤ (thr t).refs w) :
    ∃ win, o = some win ∧ Balanced map thr w win := by
  cases o with
  | some win => exact ⟨win, rfl, h⟩
  | none => have := (h.2 t).1; omega

theorem Account.of_map (h : Account map thr w o) (hmap : mapped map w = 1) :
    ∃ win, o = some win ∧ Balanced map thr w win := by
  cases o with
  | some win => exact ⟨win, rfl, h⟩
  | none => have := h.1; omega

omit [Fintype τ] [Fintype ν] [DecidableEq α] in
/-- The threads after the thread `t` has moved, the map being as it was. -/
theorem Shape.set (hS : Shape mutex map thr)
    (hown : mutex'.own t = if th.pc.inMap then 1 else 0)
    (hother : ∀ u, u ≠ t → mutex'.own u = mutex.own u)
    (hfound : ∀ v ∈ th.pc.found, ∃ h, map h = some v) (hok : th.Ok) :
    Shape mutex' map (update thr t th) := by
  refine ⟨fun u => ?_, hS.inj, fun u => ?_, fun u => ?_⟩
  · by_cases hu : u = t
    · rw [hu, update_self, hown]
    · rw [update_of_ne hu, hother u hu, hS.own u]
  · by_cases hu : u = t
    · rw [hu, update_self]
      exact hfound
    · rw [update_of_ne hu]
      exact hS.found u
  · by_cases hu : u = t
    · rw [hu, update_self]
      exact hok
    · rw [update_of_ne hu]
      exact hS.ok u

end invariant

/-! ### The moves -/

section moves

variable [DecidableEq τ] [DecidableEq α] [Fintype τ] [Fintype ν]
  {s s' : State τ ν η α} {t : τ} {th : Thread ν η α} {w : α} {win : Win τ}

namespace Inv

theorem set (hI : Inv s) {o : Option (Win τ)} (mutex : RecursiveMutex τ)
    (hw : Account s.wndMap (update s.thr t th) w o)
    (hv : ∀ v, v ≠ w → Same (s.thr t) th v)
    (hS : Shape mutex s.wndMap (update s.thr t th)) :
    Inv (({ s with wndMapMutex := mutex }.setWin w o).set t th) := by
  refine ⟨hI.fault, fun v => ?_, hS⟩
  change Account s.wndMap _ v (update s.wins w o v)
  by_cases h : v = w
  · rw [h, update_self]
    exact hw
  · rw [update_of_ne h]
    exact (hI.account v).same rfl (hv v h)

theorem move (hI : Inv s) (mutex : RecursiveMutex τ) (hv : ∀ v, Same (s.thr t) th v)
    (hS : Shape mutex s.wndMap (update s.thr t th)) :
    Inv ({ s with wndMapMutex := mutex }.set t th) :=
  ⟨hI.fault, fun v => (hI.account v).same rfl (hv v), hS⟩

variable {p q : Pc ν η α} {objs : ν → Option α} {made : Option α}

/-- A thread goes on, with no object concerned and the mutex of the map left alone. -/
theorem walk (hI : Inv s) (hth : s.thr t = ⟨p, objs, made⟩) (hin : q.inMap = p.inMap)
    (hfound : ∀ v ∈ q.found, ∃ h, s.wndMap h = some v) (hok : Thread.Ok ⟨q, objs, made⟩)
    (hv : ∀ v, q.refs v = p.refs v ∧ q.deletes v = p.deletes v ∧ q.locks v = p.locks v) :
    Inv (s.set t ⟨q, objs, made⟩) := by
  have hown := hI.shape.own t
  rw [hth] at hown
  refine hI.move s.wndMapMutex (fun v => ?_)
    (hI.shape.set (hin ▸ hown) (fun _ _ => rfl) hfound hok)
  rw [hth]
  exact .of_pc rfl rfl (hv v).1 (hv v).2.1 (hv v).2.2

/-- A thread goes on with the object at `w`, the mutex of the map left alone. -/
theorem touch (hI : Inv s) {th₀ : Thread ν η α} (hth : s.thr t = th₀) {o : Option (Win τ)}
    (hin : th.pc.inMap = th₀.pc.inMap) (hfound : th.pc.found = none) (hok : th.Ok)
    (hw : Account s.wndMap (update s.thr t th) w o) (hv : ∀ v, v ≠ w → Same th₀ th v) :
    Inv ((s.setWin w o).set t th) := by
  subst hth
  exact hI.set s.wndMapMutex hw hv
    (hI.shape.set (hin ▸ hI.shape.own t) (fun _ _ => rfl) (by simp [hfound]) hok)

theorem lockMap (hI : Inv s) (hin : (s.thr t).pc.inMap = false) (hin' : th.pc.inMap = true)
    (hfound : th.pc.found = none) (hok : th.Ok) (hv : ∀ v, Same (s.thr t) th v)
    (h : s.lockMap t th = some s') : Inv s' := by
  obtain ⟨m, hm, rfl⟩ := Option.map_eq_some_iff.1 h
  obtain ⟨-, -, hown, hother⟩ := RecursiveMutex.lock_spec hm
  refine hI.move m hv (hI.shape.set ?_ hother (by simp [hfound]) hok)
  rw [hown, hI.shape.own t, hin, hin']
  rfl

theorem unlockMap (hI : Inv s) (hin : (s.thr t).pc.inMap = true) (hin' : th.pc.inMap = false)
    (hfound : th.pc.found = none) (hok : th.Ok) (hv : ∀ v, Same (s.thr t) th v) :
    ∃ s', s.unlockMap t th = some s' ∧ s'.wndMapMutex.owner = none ∧ Inv s' := by
  have hone : s.wndMapMutex.own t = 1 := by rw [hI.shape.own t, hin]; rfl
  obtain ⟨m, hm, -, hown, hother⟩ :=
    RecursiveMutex.unlock_spec (RecursiveMutex.own_pos_iff.1 (hone ▸ Nat.one_pos))
  refine ⟨_, by rw [State.unlockMap, hm], ?_,
    hI.move m hv (hI.shape.set ?_ ?_ (by simp [hfound]) hok)⟩
  · -- Another owner would have owned the mutex before too.
    by_contra hne
    obtain ⟨u, hu⟩ := Option.ne_none_iff_exists'.1 hne
    have hpos : 0 < m.own u := RecursiveMutex.own_pos_iff.2 hu
    by_cases hut : u = t
    · rw [hut] at hpos
      omega
    · rw [(hother u hut).1] at hpos
      exact absurd hpos (lt_irrefl 0)
  · rw [hin']
    simpa [hone] using hown
  · intro u hu
    rw [(hother u hu).1, (hother u hu).2]

/-- A step that changes the map; only this thread has its mutex. -/
theorem remap (hI : Inv s) {map : η → Option α} (hin : (s.thr t).pc.inMap = true)
    (hin' : th.pc.inMap = true) (hfound : th.pc.found = none) (hok : th.Ok)
    (hinj : ∀ h h' v, map h = some v → map h' = some v → h = h')
    (hacc : ∀ v, Account map (update s.thr t th) v (s.wins v)) :
    Inv ({ s with wndMap := map }.set t th) := by
  refine ⟨hI.fault, hacc, fun u => ?_, hinj, fun u v hv => ?_, fun u => ?_⟩
  · change s.wndMapMutex.own u = if (update s.thr t th u).pc.inMap then 1 else 0
    by_cases hu : u = t
    · rw [hu, update_self, hI.shape.own t, hin, hin']
    · rw [update_of_ne hu, hI.shape.own u]
  · change v ∈ (update s.thr t th u).pc.found at hv
    by_cases hu : u = t
    · rw [hu, update_self, hfound] at hv
      cases hv
    · -- A thread that has found an object has the mutex too.
      rw [update_of_ne hu] at hv
      have huin : (s.thr u).pc.inMap = true := by
        cases hp : (s.thr u).pc with
        | addRef => rfl
        | _ => rw [hp] at hv; cases hv
      have ht : 0 < s.wndMapMutex.own t := by rw [hI.shape.own t, hin]; exact Nat.one_pos
      have hu' : 0 < s.wndMapMutex.own u := by rw [hI.shape.own u, huin]; exact Nat.one_pos
      rw [RecursiveMutex.own_pos_iff] at ht hu'
      exact absurd (Option.some.inj (hu'.symm.trans ht)) hu
  · change (update s.thr t th u).Ok
    by_cases hu : u = t
    · rw [hu, update_self]
      exact hok
    · rw [update_of_ne hu]
      exact hI.shape.ok u

variable {x y : ν} {k : Cont ν} {temp : Bool}

theorem exists_of_lock (hI : Inv s) (hth : s.thr t = ⟨.lock x w temp, objs, made⟩) :
    ∃ win, s.wins w = some win ∧ Balanced s.wndMap s.thr w win := by
  refine (hI.account w).of_thread (t := t) ?_
  -- `fromHwnd` has a reference of its own; a copy has that of the variable it copies.
  cases temp with
  | false => exact (hI.shape.ok t).refs_pos_of_copies (by rw [hth]; rfl)
  | true => exact Thread.refs_pos_of_pc (by rw [hth]; exact if_pos rfl)

end Inv

theorem inv_init : Inv (init : State τ ν η α) := by
  refine ⟨rfl, fun w => ⟨mapped_eq_zero (by simp [init]), fun t => ⟨?_, rfl⟩⟩, ⟨?_, ?_, ?_, ?_⟩⟩
  · simp [init, Thread.refs, held, Pc.refs]
  · intro t
    simp [init, Pc.inMap]
  · intro h h' w hh
    cases hh
  · intro t w hw
    cases hw
  · intro t
    exact ⟨by simp [init, Pc.target], by simp [init, Pc.copies]⟩

/-! ### What the invariant says -/

/-- The thread is in none of the functions, and holds nothing. -/
structure Thread.Quiet (th : Thread ν η α) : Prop where
  pc : th.pc = .idle
  objs : ∀ x, th.objs x = none
  made : th.made = none

theorem Thread.Quiet.refs_eq_zero (h : th.Quiet) (w : α) :
    th.refs w = 0 ∧ th.pc.deletes w = 0 := by
  rw [Thread.refs, held, h.pc, h.made]
  simp [h.objs, Pc.refs, Pc.deletes]

namespace Inv

/-- An object that a variable refers to exists, and the thread owns its mutex. -/
theorem owner_of_objs (hI : Inv s) {x : ν} (hx : (s.thr t).objs x = some w) :
    ∃ win, s.wins w = some win ∧ win.mutex.owner = some t := by
  have hheld := held_pos hx
  obtain ⟨win, hwin, hb⟩ := (hI.account w).of_thread (Thread.refs_pos_of_objs hx)
  refine ⟨win, hwin, RecursiveMutex.own_pos_iff.1 ?_⟩
  have hown := hb.own t
  have hlocks := (s.thr t).pc.locks_nonneg (w := w)
  rw [Thread.locks] at hown
  omega

theorem cRef_bounds (hI : Inv s) (hwin : s.wins w = some win) :
    0 ≤ win.cRef ∧ win.cRef ≤ 1 + Fintype.card τ * (Fintype.card ν + 2) := by
  have hb := hI.account w
  rw [hwin] at hb
  have href := hb.refs
  have hmap := mapped_nonneg s.wndMap w
  have hmap' := mapped_le s.wndMap w
  have hsum : 0 ≤ ∑ u, (s.thr u).refs w := Finset.sum_nonneg fun _ _ => Thread.refs_nonneg
  have hle : ∑ u, (s.thr u).refs w ≤ ∑ _u : τ, ((Fintype.card ν : ℤ) + 2) :=
    Finset.sum_le_sum fun u _ => Thread.refs_le
  rw [Finset.sum_const, Finset.card_univ, nsmul_eq_mul] at hle
  omega

/-- When all threads are quiet the map has all objects that there are, and no other. -/
theorem isSome_iff_of_quiet (hI : Inv s) (hquiet : ∀ t, (s.thr t).Quiet) (w : α) :
    (s.wins w).isSome ↔ ∃ h, s.wndMap h = some w := by
  constructor
  · intro hsome
    obtain ⟨win, hwin⟩ := Option.isSome_iff_exists.1 hsome
    have hb := hI.account w
    rw [hwin] at hb
    -- An object that nothing refers to would be about to be deleted by some thread.
    by_contra hne
    have hzero : win.cRef = 0 := by
      rw [hb.refs, mapped_eq_zero fun h hw => hne ⟨h, hw⟩,
        Finset.sum_eq_zero fun u _ => ((hquiet u).refs_eq_zero w).1, add_zero]
    have hdel := hb.deletes
    rw [if_pos hzero, Finset.sum_eq_zero fun u _ => ((hquiet u).refs_eq_zero w).2] at hdel
    exact absurd hdel zero_ne_one
  · rintro ⟨h, hw⟩
    obtain ⟨win, hwin, -⟩ := (hI.account w).of_map (mapped_of_eq hw)
    rw [hwin]
    rfl

end Inv

end moves

/-! ### The steps -/

section steps

variable [DecidableEq τ] [DecidableEq ν] [DecidableEq η] [DecidableEq α] [Fintype τ] [Fintype ν]
  {s s' : State τ ν η α} {t : τ} {th : Thread ν η α} {w : α} {win : Win τ} {objs : ν → Option α}
  {made : Option α} {x y : ν} {h : η} {k : Cont ν} {temp : Bool}

namespace Inv

theorem goOn_find (hI : Inv s) (hth : s.thr t = ⟨.find x h, objs, made⟩)
    (hs : goOn s t = some s') : Inv s' := by
  have hok := hI.shape.ok t
  simp only [goOn, hth] at hs
  rw [hth] at hok
  split at hs
  · rename_i w hw
    cases hs
    refine hI.walk hth rfl ?_ ⟨hok.target, by simp [Pc.copies]⟩ fun v => ⟨rfl, rfl, rfl⟩
    intro v hv
    cases hv
    exact ⟨h, hw⟩
  · cases hs
    exact hI.walk hth rfl (by simp [Pc.found]) (.of_none rfl rfl)
      fun v => ⟨rfl, rfl, rfl⟩

theorem goOn_assign (hI : Inv s) (hth : s.thr t = ⟨.assign x y, objs, made⟩)
    (hs : goOn s t = some s') : Inv s' := by
  have hok := hI.shape.ok t
  simp only [goOn, hth] at hs
  rw [hth] at hok
  split at hs
  · rename_i w hw
    cases hs
    refine hI.walk hth rfl (by simp [Pc.found]) ⟨hok.target, ?_⟩ fun v => ⟨rfl, rfl, rfl⟩
    intro v hv
    cases hv
    exact ⟨y, hw⟩
  · cases hs
    exact hI.walk hth rfl (by simp [Pc.found]) (.of_none rfl rfl)
      fun v => ⟨rfl, rfl, rfl⟩

theorem goOn_addRef (hI : Inv s) (hth : s.thr t = ⟨.addRef x w, objs, made⟩)
    (hs : goOn s t = some s') : Inv s' := by
  have hok := hI.shape.ok t
  have hfound := hI.shape.found t
  have hacc := hI.account w
  rw [hth] at hok hfound
  obtain ⟨h, hw⟩ := hfound w rfl
  have hmap := mapped_of_eq hw
  obtain ⟨win, hwin, hb⟩ := hacc.of_map hmap
  have hpos := hb.refs_pos_of_map hmap
  simp only [goOn, hth, State.access, hwin, Option.some.injEq] at hs
  subst hs
  refine hI.touch hth rfl rfl ⟨hok.target, by simp [Pc.copies]⟩ ?_ fun v hv => ?_
  · refine hb.set hth ?_ ?_ ?_ (fun _ _ => rfl) (fun h => h) fun u hu => ?_
    · simp [Thread.refs, Pc.refs]
    · simp only [Pc.deletes]
      split_ifs <;> omega
    · simp [Thread.locks, Pc.locks]
    · -- The map has a reference to what it has, so that no thread is its maker.
      have h₁ := held_nonneg (s.thr t).objs w
      have h₂ := (s.thr t).pc.refs_nonneg (w := w)
      exact absurd hu (hb.made_ne (t := t) (by omega) u)
  · refine .of_pc rfl rfl ?_ rfl rfl
    simp [Pc.refs, Ne.symm hv]

theorem goOn_lock (hI : Inv s) (hth : s.thr t = ⟨.lock x w temp, objs, made⟩)
    (hs : goOn s t = some s') : Inv s' := by
  have hok := hI.shape.ok t
  rw [hth] at hok
  obtain ⟨win, hwin, hb⟩ := hI.exists_of_lock hth
  simp only [goOn, hth, State.access, hwin, Option.map_eq_some_iff] at hs
  obtain ⟨m, hm, rfl⟩ := hs
  obtain ⟨-, -, hown, hother⟩ := RecursiveMutex.lock_spec hm
  have hcopies : (Pc.locked x w temp : Pc ν η α).copies = (Pc.lock x w temp : Pc ν η α).copies := by
    cases temp <;> rfl
  refine hI.touch hth rfl rfl ⟨hok.target, hcopies ▸ hok.copies⟩ ?_ fun v hv => ?_
  · refine hb.set hth ?_ ?_ ?_ hother (fun h => h) hb.made
    · cases temp <;> simp [Thread.refs, Pc.refs]
    · simp [Pc.deletes]
    · simp [Thread.locks, Pc.locks, hown]
  · refine .of_pc rfl rfl ?_ rfl ?_
    · cases temp <;> rfl
    · simp [Pc.locks, Ne.symm hv]

theorem goOn_locked (hI : Inv s) (hth : s.thr t = ⟨.locked x w temp, objs, made⟩)
    (hs : goOn s t = some s') : Inv s' := by
  have hok := hI.shape.ok t
  -- The reference taken in the map, or that of the variable copied, keeps the object.
  have hpos : 1 ≤ held objs w + (Pc.locked x w temp : Pc ν η α).refs w := by
    have hnonneg := held_nonneg objs w
    cases temp with
    | false =>
      rw [hth] at hok
      obtain ⟨y, hy⟩ := hok.copies w rfl
      have := held_pos hy
      simpa [Pc.refs] using this
    | true =>
      simp only [Pc.refs, if_true]
      omega
  have hrefs : 1 ≤ (s.thr t).refs w := by
    rw [hth]
    change 1 ≤ held objs w + (if made = some w then 1 else 0) +
      (Pc.locked x w temp : Pc ν η α).refs w
    split_ifs <;> omega
  obtain ⟨win, hwin, hb⟩ := (hI.account w).of_thread hrefs
  have hcRef := hb.refs_pos_of_thread hrefs
  have hnull : objs x = none := by
    rw [hth] at hok
    exact hok.target x rfl
  simp only [goOn, hth, State.access, hwin, Option.some.injEq] at hs
  subst hs
  refine hI.touch hth ?_ ?_ ⟨?_, ?_⟩ ?_ fun v hv => ?_
  · cases temp <;> rfl
  · cases temp <;> rfl
  · cases temp <;> simp [Pc.target]
  · cases temp <;> simp [Pc.copies]
  · refine hb.set hth ?_ ?_ ?_ (fun _ _ => rfl) (fun h => h) fun u hu => ?_
    · cases temp <;> simp [Thread.refs, Pc.refs, held_update, hnull]
    · cases temp <;> simp [Pc.deletes] <;> omega
    · cases temp <;> simp [Thread.locks, Pc.locks, held_update, hnull]
    · have hmap := mapped_nonneg s.wndMap w
      exact absurd hu (hb.made_ne (t := t) (by rw [hth]; simpa using by omega) u)
  · refine ⟨?_, ?_, ?_, fun h => h⟩
    · cases temp <;> simp [Thread.refs, Pc.refs, held_update, hnull, Ne.symm hv]
    · cases temp <;> rfl
    · cases temp <;> simp [Thread.locks, Pc.locks, held_update, hnull, Ne.symm hv]

theorem goOn_release (hI : Inv s) (hth : s.thr t = ⟨.release w k, objs, made⟩)
    (hs : goOn s t = some s') : Inv s' := by
  have hok := hI.shape.ok t
  rw [hth] at hok
  have hheld := held_nonneg objs w
  have hrefs : 1 ≤ (s.thr t).refs w := Thread.refs_pos_of_pc (by rw [hth]; exact if_pos rfl)
  obtain ⟨win, hwin, hb⟩ := (hI.account w).of_thread hrefs
  have hcRef := hb.refs_pos_of_thread hrefs
  simp only [goOn, hth, State.access, hwin, Option.some.injEq] at hs
  subst hs
  -- The reference to be given back is not that of a maker.
  have hmade : ∀ u, (s.thr u).made ≠ some w := by
    have hmap := mapped_nonneg s.wndMap w
    refine hb.made_ne (t := t) ?_
    rw [hth]
    simp only [Pc.refs, if_true]
    omega
  by_cases hzero : win.cRef - 1 = 0
  · -- The last reference: only this thread has seen the count become 0.
    rw [if_pos hzero]
    refine hI.touch hth ?_ rfl ⟨?_, by simp [Pc.copies]⟩ ?_ fun v hv => ?_
    · cases k <;> rfl
    · cases k with
      | assign y z => exact hok.target
      | _ => simp [Pc.target]
    · refine hb.set hth ?_ ?_ ?_ (fun _ _ => rfl) (fun h => h) fun u hu => absurd hu (hmade u)
      · simp [Thread.refs, Pc.refs]
        ring
      · simp only [Pc.deletes]
        split_ifs <;> omega
      · simp [Thread.locks, Pc.locks]
    · refine .of_pc rfl rfl ?_ ?_ rfl
      · simp [Pc.refs, Ne.symm hv]
      · simp [Pc.deletes, Ne.symm hv]
  · rw [if_neg hzero]
    refine hI.touch hth ?_ ?_ ⟨?_, ?_⟩ ?_ fun v hv => ?_
    · cases k <;> rfl
    · cases k <;> rfl
    · cases k with
      | assign y z => exact hok.target
      | _ => simp [Cont.pc, Pc.target]
    · cases k <;> simp [Cont.pc, Pc.copies]
    · refine hb.set hth ?_ ?_ ?_ (fun _ _ => rfl) (fun h => h) fun u hu => absurd hu (hmade u)
      · cases k <;> simp [Thread.refs, Cont.pc, Pc.refs] <;> ring
      · cases k <;> simp only [Cont.pc, Pc.deletes] <;> split_ifs <;> omega
      · cases k <;> simp [Thread.locks, Cont.pc, Pc.locks]
    · refine .of_pc rfl rfl ?_ ?_ ?_
      · cases k <;> simp [Cont.pc, Pc.refs, Ne.symm hv]
      · cases k <;> rfl
      · cases k <;> rfl

omit [DecidableEq ν] [DecidableEq η] in
theorem delete (hI : Inv s) (th : Thread ν η α) {th₀ : Thread ν η α} (hth : s.thr t = th₀)
    (hin : th.pc.inMap = th₀.pc.inMap) (hfound : th.pc.found = none) (hok : th.Ok)
    (hwin : s.wins w = some win) (hlocks : th.locks w = th₀.locks w)
    (hmap : mapped s.wndMap w = 0)
    (hrefs : ∀ u, (update s.thr t th u).refs w = 0)
    (hdeletes : ∀ u, (update s.thr t th u).pc.deletes w = 0)
    (hv : ∀ v, v ≠ w → Same th₀ th v) :
    ∃ s', s.delete t w th = some s' ∧ s'.thr t = th ∧ Inv s' := by
  have hb : Balanced s.wndMap s.thr w win := by
    have := hI.account w
    rwa [hwin] at this
  have hfree : win.mutex.owner = none := by
    -- An owner of its mutex would have a reference.
    by_contra hne
    obtain ⟨u, hu⟩ := Option.ne_none_iff_exists'.1 hne
    have hpos : 0 < win.mutex.own u := RecursiveMutex.own_pos_iff.2 hu
    have hown := hb.own u
    have hzero : (s.thr u).locks w = 0 := by
      have hrefs := hrefs u
      by_cases hut : u = t
      · rw [hut, update_self] at hrefs
        rw [hut, hth, ← hlocks]
        exact hok.locks_eq_zero hrefs
      · rw [update_of_ne hut] at hrefs
        exact (hI.shape.ok u).locks_eq_zero hrefs
    omega
  refine ⟨_, by rw [State.delete, State.access, hwin]; exact if_pos hfree, by simp, ?_⟩
  exact hI.touch hth hin hfound hok ⟨hmap, fun u => ⟨hrefs u, hdeletes u⟩⟩ hv

theorem goOn_delete (hI : Inv s) (hth : s.thr t = ⟨.delete w k, objs, made⟩) :
    ∃ s', goOn s t = some s' ∧ s'.thr t = ⟨k.pc, objs, made⟩ ∧ Inv s' := by
  have hok := hI.shape.ok t
  have hacc := hI.account w
  have hone : (s.thr t).pc.deletes w = 1 := by rw [hth]; exact if_pos rfl
  have hsingle := Finset.single_le_sum (f := fun u => (s.thr u).pc.deletes w)
    (fun _ _ => Pc.deletes_nonneg) (Finset.mem_univ t)
  rw [hth] at hok
  have hpc : ∀ v, (k.pc : Pc ν η α).refs v = 0 ∧ (k.pc : Pc ν η α).deletes v = 0 ∧
      (k.pc : Pc ν η α).locks v = 0 := by
    intro v
    cases k <;> exact ⟨rfl, rfl, rfl⟩
  cases hwin : s.wins w with
  | none =>
    rw [hwin] at hacc
    have := (hacc.2 t).2
    omega
  | some win =>
    rw [hwin] at hacc
    have hb : Balanced s.wndMap s.thr w win := hacc
    have hdel := hb.deletes
    -- A thread deletes only what has no reference, and no other thread deletes it.
    have hzero : win.cRef = 0 := by
      by_contra hne
      rw [if_neg hne] at hdel
      omega
    rw [if_pos hzero] at hdel
    have hmap := mapped_nonneg s.wndMap w
    have hsum : 0 ≤ ∑ u, (s.thr u).refs w := Finset.sum_nonneg fun _ _ => Thread.refs_nonneg
    have href := hb.refs
    have hsame : ∀ v, (⟨k.pc, objs, made⟩ : Thread ν η α).refs v = (s.thr t).refs v := by
      intro v
      rw [hth, Thread.refs, Thread.refs, (hpc v).1]
      rfl
    have hres := hI.delete ⟨k.pc, objs, made⟩ hth (by cases k <;> rfl) (by cases k <;> rfl)
      ⟨?_, ?_⟩ hwin ?_ (by omega) (refs_eq_zero ?_) (deletes_eq_zero ?_) fun v hv => ?_
    · simpa only [goOn, hth] using hres
    · cases k with
      | assign y z => exact hok.target
      | _ => simp [Cont.pc, Pc.target]
    · cases k <;> simp [Cont.pc, Pc.copies]
    · rw [Thread.locks, Thread.locks, (hpc w).2.2]
      rfl
    · rw [sum_set fun th => th.refs w, hsame]
      omega
    · rw [sum_set fun th => th.pc.deletes w, hone, (hpc w).2.1]
      omega
    · refine .of_pc rfl rfl (hpc v).1 ?_ (hpc v).2.2
      exact (hpc v).2.1.trans (if_neg (Ne.symm hv)).symm

omit [DecidableEq η] in
theorem unlock (hI : Inv s) (hth : s.thr t = ⟨.idle, objs, made⟩) (hx : objs x = some w)
    (hin : (Pc.release w k : Pc ν η α).inMap = false)
    (htarget : ∀ y ∈ (Pc.release w k : Pc ν η α).target, y = x) :
    ∃ s', s.unlock t w ⟨.release w k, update objs x none, made⟩ = some s' ∧ Inv s' := by
  have hheld := held_pos hx
  have hrefs : 1 ≤ (s.thr t).refs w := Thread.refs_pos_of_objs (by rw [hth]; exact hx)
  obtain ⟨win, hwin, hb⟩ := (hI.account w).of_thread hrefs
  -- The lock of the variable is one of the locks of the thread.
  have hown : 0 < win.mutex.own t := by
    have hown := hb.own t
    rw [hth, Thread.locks] at hown
    simp only [Pc.locks] at hown
    omega
  obtain ⟨m, hm, -, hless, hother⟩ := RecursiveMutex.unlock_spec (RecursiveMutex.own_pos_iff.1 hown)
  refine ⟨_, by rw [State.unlock, State.access, hwin]; simp only [hm]; rfl, ?_⟩
  refine hI.touch hth hin rfl ⟨?_, by simp [Pc.copies]⟩ ?_ fun v hv => ?_
  · intro y hy
    rw [htarget y hy]
    exact update_self ..
  · refine hb.set hth ?_ ?_ ?_ (fun u hu => ?_) (fun h => h) hb.made
    · simp [Thread.refs, Pc.refs, held_update, hx]
      ring
    · simp [Pc.deletes]
    · simp only [Thread.locks, Pc.locks, held_update, hx]
      push_cast [← hless]
      simp
    · rw [(hother u hu).1, (hother u hu).2]
  · refine ⟨?_, rfl, ?_, fun h => h⟩
    · simp [Thread.refs, Pc.refs, held_update, hx, Ne.symm hv]
    · simp [Thread.locks, Pc.locks, held_update, hx, Ne.symm hv]

theorem goOn_erase (hI : Inv s) (hth : s.thr t = ⟨.erase h, objs, made⟩)
    (hs : goOn s t = some s') : Inv s' := by
  simp only [goOn, hth] at hs
  split at hs
  · rename_i w hw
    cases hs
    -- No object is in the map under two handles.
    have hgone : ∀ h', update s.wndMap h none h' ≠ some w := by
      intro h' hw'
      by_cases hh : h' = h
      · rw [hh, update_self] at hw'
        cases hw'
      · rw [update_of_ne hh] at hw'
        exact hh (hI.shape.inj h' h w hw' hw)
    have hkeep : ∀ v, v ≠ w → ∀ h', update s.wndMap h none h' = some v ↔
        s.wndMap h' = some v := by
      intro v hv h'
      by_cases hh : h' = h
      · rw [hh, update_self, hw]
        simp [Ne.symm hv]
      · rw [update_of_ne hh]
    refine hI.remap (by rw [hth]; rfl) rfl rfl (.of_none rfl rfl) ?_ ?_
    · intro h₁ h₂ v h₁v h₂v
      have hv : v ≠ w := fun e => hgone h₁ (e ▸ h₁v)
      exact hI.shape.inj h₁ h₂ v ((hkeep v hv h₁).1 h₁v) ((hkeep v hv h₂).1 h₂v)
    · intro v
      by_cases hv : v = w
      · subst hv
        -- The reference of the map is now that of the thread.
        obtain ⟨win, hwin, hb⟩ := (hI.account v).of_map (mapped_of_eq hw)
        rw [hwin]
        refine hb.set hth ?_ (by simp [Pc.deletes]) ?_ (fun _ _ => rfl) (fun h => h) hb.made
        · rw [mapped_of_eq hw, mapped_eq_zero hgone]
          simp [Thread.refs, Pc.refs]
        · simp [Thread.locks, Pc.locks]
      · refine (hI.account v).same (mapped_congr (hkeep v hv)) ?_
        rw [hth]
        exact .of_pc rfl rfl (if_neg (Ne.symm hv)) rfl rfl
  · cases hs
    exact hI.walk hth rfl (by simp [Pc.found]) (.of_none rfl rfl)
      fun v => ⟨rfl, rfl, rfl⟩

theorem goOn_insert (hI : Inv s) (hth : s.thr t = ⟨.insert h, objs, made⟩)
    (hs : goOn s t = some s') : Inv s' := by
  simp only [goOn, hth] at hs
  split at hs
  · rename_i w hnone
    cases hs
    have hrefs : 1 ≤ (s.thr t).refs w := Thread.refs_pos_of_made (by rw [hth])
    obtain ⟨win, hwin, hb⟩ := (hI.account w).of_thread hrefs
    -- The only reference is that of the maker, so that the map has none.
    have hfree : mapped s.wndMap w = 0 := by
      have hmap := mapped_nonneg s.wndMap w
      have hle := refs_le_sum s.thr w t
      have := hb.refs
      have := hb.made t (by rw [hth])
      omega
    have hnew : ∀ h', s.wndMap h' ≠ some w := fun h' hw => by
      have := mapped_of_eq hw
      omega
    have hkeep : ∀ v, v ≠ w → ∀ h', update s.wndMap h (some w) h' = some v ↔
        s.wndMap h' = some v := by
      intro v hv h'
      by_cases hh : h' = h
      · rw [hh, update_self, hnone]
        simp [Ne.symm hv]
      · rw [update_of_ne hh]
    refine hI.remap (by rw [hth]; rfl) rfl rfl (.of_none rfl rfl) ?_ ?_
    · intro h₁ h₂ v h₁v h₂v
      by_cases hv : v = w
      · have honly : ∀ h', update s.wndMap h (some w) h' = some w → h' = h := by
          intro h' hw'
          by_contra hh
          rw [update_of_ne hh] at hw'
          exact hnew h' hw'
        rw [hv] at h₁v h₂v
        rw [honly h₁ h₁v, honly h₂ h₂v]
      · exact hI.shape.inj h₁ h₂ v ((hkeep v hv h₁).1 h₁v) ((hkeep v hv h₂).1 h₂v)
    · intro v
      by_cases hv : v = w
      · subst hv
        -- The reference of the thread is now that of the map.
        rw [hwin]
        refine hb.set hth ?_ (by simp [Pc.deletes]) ?_ (fun _ _ => rfl) (by simp) hb.made
        · rw [hfree, mapped_of_eq (update_self h (some v) s.wndMap)]
          simp [Thread.refs, Pc.refs]
        · simp [Thread.locks, Pc.locks]
      · refine (hI.account v).same (mapped_congr (hkeep v hv)) ?_
        rw [hth]
        refine ⟨?_, rfl, rfl, by simp⟩
        simp [Thread.refs, Pc.refs, Ne.symm hv]
  · cases hs
    exact hI.walk hth rfl (by simp [Pc.found]) (.of_none rfl rfl)
      fun v => ⟨rfl, rfl, rfl⟩

theorem goOn_leave (hI : Inv s) (hth : s.thr t = ⟨.leave x w, objs, made⟩) :
    ∃ s', goOn s t = some s' ∧ s'.wndMapMutex.owner = none ∧ Inv s' := by
  have hok := hI.shape.ok t
  rw [hth] at hok
  simp only [goOn, hth]
  refine hI.unlockMap (by rw [hth]; rfl) rfl rfl ⟨hok.target, by simp [Pc.copies]⟩ fun v => ?_
  rw [hth]
  exact .of_pc rfl rfl rfl rfl rfl

theorem goOn_unlockMap (hI : Inv s) (hth : s.thr t = ⟨.unlockMap, objs, made⟩) :
    ∃ s', goOn s t = some s' ∧ s'.wndMapMutex.owner = none ∧ Inv s' := by
  simp only [goOn, hth]
  refine hI.unlockMap (by rw [hth]; rfl) rfl rfl (.of_none rfl rfl)
    fun v => ?_
  rw [hth]
  exact .of_pc rfl rfl rfl rfl rfl

theorem goOn (hI : Inv s) (hs : goOn s t = some s') : Inv s' := by
  rcases hth : s.thr t with ⟨p, objs, made⟩
  cases p with
  | idle => simp [WndObj.goOn, hth] at hs
  | find x h => exact hI.goOn_find hth hs
  | addRef x w => exact hI.goOn_addRef hth hs
  | leave x w =>
    obtain ⟨u, hu, -, hIu⟩ := hI.goOn_leave hth
    rw [hu] at hs
    exact Option.some.inj hs ▸ hIu
  | unlockMap =>
    obtain ⟨u, hu, -, hIu⟩ := hI.goOn_unlockMap hth
    rw [hu] at hs
    exact Option.some.inj hs ▸ hIu
  | lock x w temp => exact hI.goOn_lock hth hs
  | locked x w temp => exact hI.goOn_locked hth hs
  | release w k => exact hI.goOn_release hth hs
  | delete w k =>
    obtain ⟨u, hu, -, hIu⟩ := hI.goOn_delete hth
    rw [hu] at hs
    exact Option.some.inj hs ▸ hIu
  | assign x y => exact hI.goOn_assign hth hs
  | insert h => exact hI.goOn_insert hth hs
  | erase h => exact hI.goOn_erase hth hs

omit [DecidableEq ν] [DecidableEq η] in
theorem abandon (hI : Inv s) (hth : s.thr t = ⟨.idle, objs, some w⟩) :
    ∃ s', s.delete t w ⟨.idle, objs, none⟩ = some s' ∧ Inv s' := by
  have hheld := held_nonneg objs w
  have hth₀ : (s.thr t).refs w = held objs w + 1 := by
    rw [hth, Thread.refs]
    simp [Pc.refs]
  obtain ⟨win, hwin, hb⟩ := (hI.account w).of_thread (t := t) (by omega)
  have hmap := mapped_nonneg s.wndMap w
  have hle := refs_le_sum s.thr w t
  have hone := hb.made t (by rw [hth])
  have href := hb.refs
  have hdel := hb.deletes
  rw [if_neg (by omega)] at hdel
  have hrefs : (⟨.idle, objs, none⟩ : Thread ν η α).refs w = held objs w := by
    simp [Thread.refs, Pc.refs]
  have hres := hI.delete ⟨.idle, objs, none⟩ hth rfl rfl
    (.of_none rfl rfl) hwin rfl (by omega) (refs_eq_zero ?_)
    (deletes_eq_zero ?_) fun v hv => ⟨?_, rfl, rfl, by simp⟩
  · obtain ⟨s', hs', -, hI'⟩ := hres
    exact ⟨s', hs', hI'⟩
  · rw [sum_set fun th => th.refs w, hrefs]
    omega
  · rw [sum_set fun th => th.pc.deletes w, hdel, hth]
    rfl
  · simp [Thread.refs, Pc.refs, Ne.symm hv]

omit [DecidableEq ν] [DecidableEq η] in
theorem create (hI : Inv s) (hth : s.thr t = ⟨.idle, objs, none⟩) (hwin : s.wins w = none) :
    Inv ((s.setWin w (some ⟨1, .free⟩)).set t ⟨.idle, objs, some w⟩) := by
  have hacc := hI.account w
  rw [hwin] at hacc
  obtain ⟨hmap, hzero⟩ := hacc
  have hsum : ∑ u, (s.thr u).refs w = 0 := Finset.sum_eq_zero fun u _ => (hzero u).1
  have hdel : ∑ u, (s.thr u).pc.deletes w = 0 := Finset.sum_eq_zero fun u _ => (hzero u).2
  have hheld : held objs w = 0 := by
    have := (hzero t).1
    rw [hth, Thread.refs] at this
    simpa [Pc.refs] using this
  refine hI.touch hth rfl rfl (.of_none rfl rfl) ⟨?_, ?_, ?_, ?_⟩
    fun v hv => ⟨?_, rfl, rfl, ?_⟩
  · rw [sum_set fun th => th.refs w, hsum, (hzero t).1, hmap, Thread.refs]
    simp [Pc.refs, hheld]
  · rw [sum_set fun th => th.pc.deletes w, hdel, (hzero t).2]
    rfl
  · intro u
    -- Nobody referred to the address, so that nobody has a lock there.
    have hu : (update s.thr t ⟨.idle, objs, some w⟩ u).locks w = 0 := by
      by_cases hut : u = t
      · rw [hut, update_self, Thread.locks]
        exact (add_zero _).trans hheld
      · rw [update_of_ne hut]
        exact (hI.shape.ok u).locks_eq_zero (hzero u).1
    rw [hu, RecursiveMutex.own_free]
    rfl
  · intro u _
    rfl
  · simp [Thread.refs, Pc.refs, Ne.symm hv]
  · simp [Ne.symm hv]

omit [DecidableEq η] in
theorem call (hI : Inv s) (hidle : (s.thr t).pc = .idle) {c : Call ν η α}
    (hs : call s t c = some s') : Inv s' := by
  rcases hth : s.thr t with ⟨p, objs, made⟩
  rw [hth] at hidle
  subst hidle
  have hpc : ∀ {q : Pc ν η α}, (∀ v, q.refs v = 0 ∧ q.deletes v = 0 ∧ q.locks v = 0) →
      ∀ v, Same (s.thr t) ⟨q, objs, made⟩ v := by
    intro q hq v
    rw [hth]
    exact .of_pc rfl rfl (hq v).1 (hq v).2.1 (hq v).2.2
  have hin : (s.thr t).pc.inMap = false := by rw [hth]; rfl
  cases c with
  | create w =>
    simp only [WndObj.call, hth, Option.ite_none_right_eq_some, Option.some.injEq,
      Option.isNone_iff_eq_none] at hs
    obtain ⟨⟨rfl, hwin⟩, rfl⟩ := hs
    exact hI.create hth hwin
  | abandon =>
    simp only [WndObj.call, hth] at hs
    split at hs
    · obtain ⟨u, hu, hIu⟩ := hI.abandon hth
      rw [hu] at hs
      exact Option.some.inj hs ▸ hIu
    · cases hs
  | insertWindow h =>
    simp only [WndObj.call, hth, Option.ite_none_right_eq_some] at hs
    exact hI.lockMap hin rfl rfl (.of_none rfl rfl)
      (hpc fun _ => ⟨rfl, rfl, rfl⟩) hs.2
  | fromHwnd x h =>
    simp only [WndObj.call, hth, Option.ite_none_right_eq_some] at hs
    refine hI.lockMap hin rfl rfl ⟨?_, by simp [Pc.copies]⟩ (hpc fun _ => ⟨rfl, rfl, rfl⟩) hs.2
    intro y hy
    cases hy
    exact hs.1
  | copy x y =>
    simp only [WndObj.call, hth, Option.ite_none_right_eq_some, Option.some.injEq] at hs
    obtain ⟨hx, rfl⟩ := hs
    refine hI.walk hth rfl (by simp [Pc.found]) ⟨?_, by simp [Pc.copies]⟩ fun v => ⟨rfl, rfl, rfl⟩
    intro z hz
    cases hz
    exact hx
  | assign x y =>
    simp only [WndObj.call, hth] at hs
    split at hs
    · rename_i w hx
      obtain ⟨u, hu, hIu⟩ := hI.unlock (k := .assign x y) hth hx rfl
        fun z hz => (Option.some.inj hz).symm
      rw [hu] at hs
      exact Option.some.inj hs ▸ hIu
    · rename_i hx
      cases hs
      refine hI.walk hth rfl (by simp [Pc.found]) ⟨?_, by simp [Pc.copies]⟩
        fun v => ⟨rfl, rfl, rfl⟩
      intro z hz
      cases hz
      exact hx
  | reset x =>
    simp only [WndObj.call, hth] at hs
    split at hs
    · rename_i w hx
      obtain ⟨u, hu, hIu⟩ := hI.unlock (k := .ret) hth hx rfl fun z hz => by cases hz
      rw [hu] at hs
      exact Option.some.inj hs ▸ hIu
    · cases hs
      exact hI
  | freeWindow h =>
    simp only [WndObj.call, hth] at hs
    exact hI.lockMap hin rfl rfl (.of_none rfl rfl)
      (hpc fun _ => ⟨rfl, rfl, rfl⟩) hs

/-- **The step lemma.** -/
theorem next (hI : Inv s) {act : τ × Option (Call ν η α)} (hs : next s act = some s') :
    Inv s' := by
  rw [WndObj.next, if_neg (by rw [hI.fault]; exact Bool.false_ne_true)] at hs
  split at hs
  · exact hI.goOn hs
  · split_ifs at hs with hidle
    exact hI.call hidle hs

end Inv

theorem Inv.of_reachable (hs : system.Reachable init s) : Inv s :=
  hs.invariant inv_init fun _ _ _ hI hn => hI.next hn

/-! ### The results -/

/-- **The lifetime of a window.**  In no interleaving does a thread touch an object that does not
exist, unlock what it has not locked, or delete an object that is locked.  What a variable refers
to exists and is locked by its thread alone; what the map has exists; and when the threads are
quiet, nothing else does. -/
theorem window_lifetime (hs : system.Reachable init s) :
    s.fault = false ∧
    (∀ t x w, (s.thr t).objs x = some w →
      ∃ win, s.wins w = some win ∧ win.mutex.owner = some t) ∧
    (∀ t u x y w, (s.thr t).objs x = some w → (s.thr u).objs y = some w → t = u) ∧
    (∀ h w, s.wndMap h = some w → (s.wins w).isSome) ∧
    (∀ w win, s.wins w = some win →
      0 ≤ win.cRef ∧ win.cRef ≤ 1 + Fintype.card τ * (Fintype.card ν + 2)) ∧
    ((∀ t, (s.thr t).Quiet) → ∀ w, (s.wins w).isSome ↔ ∃ h, s.wndMap h = some w) := by
  have hI := Inv.of_reachable hs
  refine ⟨hI.fault, fun t x w hx => hI.owner_of_objs hx, fun t u x y w hx hy => ?_,
    fun h w hw => ?_, fun w win hwin => hI.cRef_bounds hwin, hI.isSome_iff_of_quiet⟩
  · obtain ⟨win, hwin, ht⟩ := hI.owner_of_objs hx
    obtain ⟨win', hwin', hu⟩ := hI.owner_of_objs hy
    cases hwin.symm.trans hwin'
    exact Option.some.inj (ht.symm.trans hu)
  · obtain ⟨win, hwin, -⟩ := (hI.account w).of_map (mapped_of_eq hw)
    rw [hwin]
    rfl

/-- A window is freed while a thread waits for it: the thread still gets it, and then deletes it. -/
def sampleRun : List (Bool × Option (Call Unit ℕ ℕ)) :=
  [(false, some (.create 7)), (false, some (.insertWindow 3)), (false, none), (false, none),
    (false, some (.fromHwnd () 3)), (false, none), (false, none), (false, none), (false, none),
    (false, none), (false, none),
    (true, some (.fromHwnd () 3)), (true, none), (true, none), (true, none),
    (false, some (.freeWindow 3)), (false, none), (false, none), (false, none),
    (false, some (.reset ())), (false, none), (true, none), (true, none), (true, none),
    (true, some (.reset ())), (true, none), (true, none)]

theorem window_lifetime_sampleRun : ∃ s, system.run init sampleRun = some s ∧ s.fault = false ∧
    s.wins 7 = none ∧ ∀ h, s.wndMap h ≠ some 7 := by
  have hsome : (system.run (init : State Bool Unit ℕ ℕ) sampleRun).isSome := by decide
  obtain ⟨s, hs⟩ := Option.isSome_iff_exists.1 hsome
  have h := window_lifetime ⟨sampleRun, hs⟩
  have hwin : (system.run (init : State Bool Unit ℕ ℕ) sampleRun).map
      (fun s => (s.wins 7).isNone) = some true := by decide
  rw [hs] at hwin
  have hnone : s.wins 7 = none := by simpa using hwin
  refine ⟨s, hs, h.1, hnone, fun x hx => ?_⟩
  have := h.2.2.2.1 x 7 hx
  rw [hnone] at this
  exact absurd this (by decide)

/-! ### The mutex of the map -/

/-- The thread is in `freeWindow`, before `delete this`, with the mutex of the map. -/
def Pc.Destroys (p : Pc ν η α) : Prop := ∃ w, p = .delete w .unlockMap

/-- The thread is in `freeWindow`, with the mutex of the map. -/
def Pc.frees : Pc ν η α → Bool
  | .erase _ | .release _ .unlockMap | .delete _ .unlockMap => true
  | _ => false

/-- The most steps until the thread leaves the mutex of the map, or comes to the deletion. -/
def Pc.toLeave : Pc ν η α → ℕ
  | .find .. | .erase _ => 3
  | .addRef .. | .release _ .unlockMap | .insert _ => 2
  | .leave .. | .unlockMap => 1
  | _ => 0

/-- The thread has left the mutex of the map, or is nearer to that by a step. -/
def Leaves (s s' : State τ ν η α) (t : τ) : Prop :=
  s'.wndMapMutex.owner = none ∨
    (s'.thr t).pc.inMap = true ∧ (s'.thr t).pc.toLeave < (s.thr t).pc.toLeave ∧
      ((s'.thr t).pc.frees = true → (s.thr t).pc.frees = true)

omit [DecidableEq τ] [DecidableEq ν] [DecidableEq η] [DecidableEq α] [Fintype τ] [Fintype ν] in
theorem Leaves.of_pc {p : Pc ν η α} (hth : (s.thr t).pc = p) (hin : (s'.thr t).pc.inMap = true)
    (hlt : (s'.thr t).pc.toLeave < p.toLeave)
    (hfrees : (s'.thr t).pc.frees = true → p.frees = true) : Leaves s s' t :=
  .inr ⟨hin, hth ▸ hlt, hth ▸ hfrees⟩

/-- A thread with the mutex of the map goes on, up to the deletion of a window. -/
theorem Inv.goOn_inMap (hI : Inv s) (hin : (s.thr t).pc.inMap = true)
    (hdel : ¬ (s.thr t).pc.Destroys) : ∃ s', WndObj.goOn s t = some s' ∧ Leaves s s' t := by
  rcases hth : s.thr t with ⟨p, objs, made⟩
  have hp : (s.thr t).pc = p := by rw [hth]
  rw [hp] at hin hdel
  cases p with
  | find x h =>
    simp only [WndObj.goOn, hth]
    cases s.wndMap h with
    | some w => exact ⟨_, rfl, .of_pc hp (by simp [Pc.inMap]) (by simp [Pc.toLeave])
      (by simp [Pc.frees])⟩
    | none => exact ⟨_, rfl, .of_pc hp (by simp [Pc.inMap]) (by simp [Pc.toLeave])
      (by simp [Pc.frees])⟩
  | addRef x w =>
    obtain ⟨h, hw⟩ := hI.shape.found t w (by rw [hp]; rfl)
    obtain ⟨win, hwin, -⟩ := (hI.account w).of_map (mapped_of_eq hw)
    simp only [WndObj.goOn, hth, State.access, hwin]
    exact ⟨_, rfl, .of_pc hp (by simp [Pc.inMap]) (by simp [Pc.toLeave])
      (by simp [Pc.frees])⟩
  | leave x w =>
    obtain ⟨u, hu, hfree, -⟩ := hI.goOn_leave hth
    exact ⟨u, hu, .inl hfree⟩
  | unlockMap =>
    obtain ⟨u, hu, hfree, -⟩ := hI.goOn_unlockMap hth
    exact ⟨u, hu, .inl hfree⟩
  | release w k =>
    -- Only `freeWindow` releases a reference with the mutex of the map.
    obtain rfl : k = .unlockMap := by cases k <;> first | rfl | cases hin
    obtain ⟨win, hwin, -⟩ := (hI.account w).of_thread
      (Thread.refs_pos_of_pc (by rw [hth]; exact if_pos rfl))
    simp only [WndObj.goOn, hth, State.access, hwin]
    by_cases hzero : win.cRef - 1 = 0
    · rw [if_pos hzero]
      exact ⟨_, rfl, .of_pc hp (by simp [Pc.inMap]) (by simp [Pc.toLeave])
      (by simp [Pc.frees])⟩
    · rw [if_neg hzero]
      exact ⟨_, rfl, .of_pc hp (by simp [Cont.pc, Pc.inMap]) (by simp [Cont.pc, Pc.toLeave])
        (by simp [Cont.pc, Pc.frees])⟩
  | delete w k =>
    obtain rfl : k = .unlockMap := by cases k <;> first | rfl | cases hin
    exact absurd ⟨w, rfl⟩ hdel
  | insert h =>
    simp only [WndObj.goOn, hth]
    split
    · exact ⟨_, rfl, .of_pc hp (by simp [Pc.inMap]) (by simp [Pc.toLeave])
      (by simp [Pc.frees])⟩
    · exact ⟨_, rfl, .of_pc hp (by simp [Pc.inMap]) (by simp [Pc.toLeave])
      (by simp [Pc.frees])⟩
  | erase h =>
    simp only [WndObj.goOn, hth]
    cases s.wndMap h with
    | some w => exact ⟨_, rfl, .of_pc hp (by simp [Pc.inMap]) (by simp [Pc.toLeave])
      (by simp [Pc.frees])⟩
    | none => exact ⟨_, rfl, .of_pc hp (by simp [Pc.inMap]) (by simp [Pc.toLeave])
      (by simp [Pc.frees])⟩
  | _ => cases hin

omit [DecidableEq ν] [DecidableEq η] [DecidableEq α] [Fintype ν] in
theorem Pc.toLeave_pos {p : Pc ν η α} (hin : p.inMap = true) (hdel : ¬ p.Destroys) :
    0 < p.toLeave := by
  cases p with
  | release w k => cases k <;> first | exact Nat.succ_pos _ | cases hin
  | delete w k => cases k <;> first | exact absurd ⟨w, rfl⟩ hdel | cases hin
  | idle | lock | locked | assign => cases hin
  | _ => exact Nat.succ_pos _

omit [DecidableEq ν] [DecidableEq η] [DecidableEq α] [Fintype ν] in
theorem Pc.Destroys.frees {p : Pc ν η α} (h : p.Destroys) : p.frees = true := by
  obtain ⟨w, rfl⟩ := h
  rfl

theorem Inv.leaves (n : ℕ) (hI : Inv s) (hin : (s.thr t).pc.inMap = true)
    (hle : (s.thr t).pc.toLeave ≤ n) : ∃ m ≤ n, ∃ s',
      system.run s (List.replicate m (t, none)) = some s' ∧
        (s'.wndMapMutex.owner = none ∨
          (s.thr t).pc.frees = true ∧ (s'.thr t).pc.Destroys) := by
  by_cases hdel : (s.thr t).pc.Destroys
  · exact ⟨0, Nat.zero_le n, s, rfl, .inr ⟨hdel.frees, hdel⟩⟩
  -- By induction on the steps left: `toLeave` falls, and is not 0 in the mutex before a deletion.
  induction n generalizing s with
  | zero =>
    have := Pc.toLeave_pos hin hdel
    omega
  | succ n ih =>
    obtain ⟨u, hu, hleaves⟩ := hI.goOn_inMap hin hdel
    have hnext : system.next s (t, none) = some u := by
      change WndObj.next s (t, none) = some u
      rw [WndObj.next, if_neg (by rw [hI.fault]; exact Bool.false_ne_true)]
      exact hu
    rcases hleaves with hfree | ⟨hin', hlt, hfrees⟩
    · exact ⟨1, by omega, u, LTS.run_cons_eq_some.2 ⟨u, hnext, rfl⟩, .inl hfree⟩
    by_cases hdel' : (u.thr t).pc.Destroys
    · exact ⟨1, by omega, u, LTS.run_cons_eq_some.2 ⟨u, hnext, rfl⟩,
        .inr ⟨hfrees hdel'.frees, hdel'⟩⟩
    · obtain ⟨m, hm, s', hs', hend⟩ := ih (hI.goOn hu) hin' (by omega) hdel'
      exact ⟨m + 1, by omega, s', LTS.run_cons_eq_some.2 ⟨u, hnext, hs'⟩,
        hend.imp_right fun h => ⟨hfrees h.1, h.2⟩⟩

/-- **The mutex of the map.**  The thread that has it is not blocked, whatever the mutexes of the
windows are: within 3 steps of its own it leaves the mutex or, in `freeWindow` only, comes to the
deletion of the window. -/
theorem map_mutex_released (hs : system.Reachable init s) (ht : s.wndMapMutex.owner = some t) :
    ∃ n ≤ 3, ∃ s', system.run s (List.replicate n (t, none)) = some s' ∧
      (s'.wndMapMutex.owner = none ∨
        (s.thr t).pc.frees = true ∧ (s'.thr t).pc.Destroys) := by
  have hI := Inv.of_reachable hs
  refine hI.leaves 3 ?_ ?_
  · have hpos := RecursiveMutex.own_pos_iff.2 ht
    rw [hI.shape.own t] at hpos
    by_contra hne
    rw [if_neg hne] at hpos
    exact lt_irrefl 0 hpos
  · unfold Pc.toLeave
    split <;> omega

theorem map_mutex_released_sampleRun : ∃ s, system.run init (sampleRun.take 13) = some s ∧
    ∃ n ≤ 3, ∃ s', system.run s (List.replicate n (true, none)) = some s' ∧
      (s'.wndMapMutex.owner = none ∨
        (s.thr true).pc.frees = true ∧ (s'.thr true).pc.Destroys) := by
  have hsome : (system.run (init : State Bool Unit ℕ ℕ) (sampleRun.take 13)).isSome := by
    decide
  obtain ⟨s, hs⟩ := Option.isSome_iff_exists.1 hsome
  have howner : (system.run (init : State Bool Unit ℕ ℕ) (sampleRun.take 13)).map
      (fun s => s.wndMapMutex.owner) = some (some true) := by decide
  rw [hs] at howner
  exact ⟨s, hs, map_mutex_released ⟨_, hs⟩ (by simpa using howner)⟩

end steps

end WndObj

end Swinx
