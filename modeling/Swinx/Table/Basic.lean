import Swinx.LTS.Basic
import Swinx.LTS.Sum
import Mathlib

/-!
# The global handle table

Named events, semaphores, mutexes, timers and file mappings of all processes live in the slots of
one table in shared memory.  Every access is made under the table's lock, so the critical sections
are the steps: the probe of `OpenExistObject`, `init` of a named object, and the destructor.

Whether the system calls of `init2` succeed (`mkfifo`, `open`, `shm_open`, `ftruncate`) is a
parameter of the steps.  The name of an object is copied into its slot with `strcpy`: a name that
does not fit there overruns the slot, which the table remembers, since nothing is known of it then.
-/

namespace Swinx

namespace Table

/-- The types of named objects; a free slot has none (`HUnknown`). -/
inductive HandleType where
  | namedEvent
  | namedSemaphore
  | namedMutex
  | namedTimer
  | fileMap
  deriving DecidableEq, Repr

/-- A name: the bytes before the terminator. -/
abbrev Name := List UInt8

/-- The size of the array `szNick`: `MAX_PATH + 1`. -/
def SIZEOF_NICK : ℕ := 1001

/-- `HandleData`.  The path `szName` of the object is determined by the slot's index. -/
structure HandleData (D : Type*) where
  type : Option HandleType
  nRef : ℤ
  szNick : Name
  data : D

/-- `GLobalHandleTable`: header and slots. -/
structure HandleTable (D : Type*) where
  totalSize : ℕ
  used : ℤ
  slots : ℕ → HandleData D
  /-- Ghost: has a name been copied that does not fit into its `szNick`? -/
  overrun : Bool

variable {D : Type*}

namespace HandleTable

/-- `findExistedHandleDataIndex` -/
def findExisted (tb : HandleTable D) (name : Name) (ty : HandleType) : Option ℕ :=
  (List.range tb.totalSize).find? fun i =>
    decide ((tb.slots i).type = some ty ∧ (tb.slots i).szNick = name)

/-- `findAvailableHandleDataIndex` -/
def findAvailable (tb : HandleTable D) : Option ℕ :=
  (List.range tb.totalSize).find? fun i => decide ((tb.slots i).type = none)

/-- Write a slot. -/
def set (tb : HandleTable D) (i : ℕ) (sl : HandleData D) : HandleTable D :=
  { tb with slots := Function.update tb.slots i sl }

/-- The object is attached to slot `i`: the end of a successful `init2`. -/
def attach (tb : HandleTable D) (i : ℕ) : HandleTable D :=
  tb.set i { tb.slots i with nRef := (tb.slots i).nRef + 1 }

/-- A free slot is claimed for a new object. -/
def claim (tb : HandleTable D) (i : ℕ) (name : Name) (ty : HandleType) (data : D) :
    HandleTable D :=
  { tb.set i ⟨some ty, 0, name, data⟩ with
    used := tb.used + 1
    overrun := tb.overrun || decide (SIZEOF_NICK ≤ name.length) }

/-- The failure branch of `init`. -/
def discard (tb : HandleTable D) (i : ℕ) : HandleTable D :=
  { tb.set i { tb.slots i with type := none, nRef := 0 } with used := tb.used - 1 }

/-- The part of `init` after the slot was found or claimed; the object's new index. -/
def initAt (tb : HandleTable D) (i : ℕ) (ok : Bool) : HandleTable D × Option ℕ :=
  if ok then (tb.attach i, some i) else (tb.discard i, none)

/-- `NamedWaitbleObj::init`, `FileMapObject::init`.  On a full table the assertion on the slot's
index fails and the process ends. -/
def init (tb : HandleTable D) (name : Name) (ty : HandleType) (data : D) (ok : Bool) :
    Option (HandleTable D × Option ℕ) :=
  match tb.findExisted name ty with
  | some i => some (tb.initAt i ok)
  | none => tb.findAvailable.map fun i => (tb.claim i name ty data).initAt i ok

/-- `OpenExistObject`: the index of the new object, which is `-1` if its `init2` fails, or nothing
if there is no such object. -/
def openExist (tb : HandleTable D) (name : Name) (ty : HandleType) (ok : Bool) :
    HandleTable D × Option (Option ℕ) :=
  match tb.findExisted name ty with
  | some i => if ok then (tb.attach i, some (some i)) else (tb, some none)
  | none => (tb, none)

/-- The destructor of an object with index `i`. -/
def destroy (tb : HandleTable D) (i : ℕ) : HandleTable D :=
  if (tb.slots i).nRef - 1 = 0 then
    { tb.set i { tb.slots i with type := none, nRef := 0 } with used := tb.used - 1 }
  else tb.set i { tb.slots i with nRef := (tb.slots i).nRef - 1 }

/-- The slots that hold an object: the census of the table's constructor. -/
def actual (tb : HandleTable D) : ℤ :=
  ∑ i ∈ Finset.range tb.totalSize, if (tb.slots i).type = none then 0 else 1

/-- The table just created. -/
def empty (totalSize : ℕ) (sl : HandleData D) : HandleTable D :=
  ⟨totalSize, 0, fun _ => { sl with type := none }, false⟩

/-! ### Looking for slots -/

variable {tb : HandleTable D} {name : Name} {ty : HandleType} {i : ℕ}

theorem findExisted_eq_some (h : tb.findExisted name ty = some i) :
    i < tb.totalSize ∧ (tb.slots i).type = some ty ∧ (tb.slots i).szNick = name := by
  have hm := List.mem_of_find?_eq_some h
  exact ⟨List.mem_range.1 hm, by simpa using List.find?_some h⟩

theorem findExisted_eq_none (h : tb.findExisted name ty = none) (hi : i < tb.totalSize) :
    ¬ ((tb.slots i).type = some ty ∧ (tb.slots i).szNick = name) := by
  simpa using List.find?_eq_none.1 h i (List.mem_range.2 hi)

theorem findAvailable_eq_some (h : tb.findAvailable = some i) :
    i < tb.totalSize ∧ (tb.slots i).type = none := by
  have hm := List.mem_of_find?_eq_some h
  exact ⟨List.mem_range.1 hm, by simpa using List.find?_some h⟩

/-! ### What the operations write -/

section

variable (tb i) (name : Name) (ty : HandleType) (data : D) (j : ℕ)

@[simp, grind =] theorem totalSize_attach : (tb.attach i).totalSize = tb.totalSize := rfl
@[simp, grind =] theorem totalSize_claim : (tb.claim i name ty data).totalSize = tb.totalSize := rfl
@[simp, grind =] theorem totalSize_discard : (tb.discard i).totalSize = tb.totalSize := rfl

@[simp, grind =] theorem used_attach : (tb.attach i).used = tb.used := rfl
@[simp, grind =] theorem used_claim : (tb.claim i name ty data).used = tb.used + 1 := rfl
@[simp, grind =] theorem used_discard : (tb.discard i).used = tb.used - 1 := rfl

@[simp, grind =] theorem overrun_attach : (tb.attach i).overrun = tb.overrun := rfl
@[simp, grind =] theorem overrun_claim : (tb.claim i name ty data).overrun =
    (tb.overrun || decide (SIZEOF_NICK ≤ name.length)) := rfl
@[simp, grind =] theorem overrun_discard : (tb.discard i).overrun = tb.overrun := rfl

@[grind =] theorem slots_attach : (tb.attach i).slots j =
    if j = i then { tb.slots i with nRef := (tb.slots i).nRef + 1 } else tb.slots j :=
  Function.update_apply ..

@[grind =] theorem slots_claim : (tb.claim i name ty data).slots j =
    if j = i then ⟨some ty, 0, name, data⟩ else tb.slots j :=
  Function.update_apply ..

@[grind =] theorem slots_discard : (tb.discard i).slots j =
    if j = i then { tb.slots i with type := none, nRef := 0 } else tb.slots j :=
  Function.update_apply ..

@[simp, grind =] theorem totalSize_destroy : (tb.destroy i).totalSize = tb.totalSize := by
  unfold destroy
  split_ifs <;> rfl

@[simp, grind =] theorem overrun_destroy : (tb.destroy i).overrun = tb.overrun := by
  unfold destroy
  split_ifs <;> rfl

@[grind =] theorem used_destroy : (tb.destroy i).used =
    if (tb.slots i).nRef - 1 = 0 then tb.used - 1 else tb.used := by
  unfold destroy
  split_ifs <;> rfl

@[grind =] theorem slots_destroy : (tb.destroy i).slots j =
    if j = i then
      if (tb.slots i).nRef - 1 = 0 then { tb.slots i with type := none, nRef := 0 }
      else { tb.slots i with nRef := (tb.slots i).nRef - 1 }
    else tb.slots j := by
  unfold destroy
  split_ifs <;> simp_all [set]

end

/-! ### Counting slots -/

theorem actual_set (hi : i < tb.totalSize) (sl : HandleData D) :
    (tb.set i sl).actual = tb.actual - (if (tb.slots i).type = none then 0 else 1) +
      (if sl.type = none then 0 else 1) :=
  sum_update (fun _ (x : HandleData D) => if x.type = none then 0 else 1) tb.slots
    (Finset.mem_range.2 hi) sl

theorem actual_attach (hi : i < tb.totalSize) : (tb.attach i).actual = tb.actual :=
  (actual_set hi _).trans (sub_add_cancel _ _)

theorem actual_claim (hi : i < tb.totalSize) (hty : (tb.slots i).type = none) (data : D) :
    (tb.claim i name ty data).actual = tb.actual + 1 := by
  have h : (tb.claim i name ty data).actual = (tb.set i ⟨some ty, 0, name, data⟩).actual := rfl
  rw [h, actual_set hi, if_pos hty, if_neg (by simp)]
  omega

theorem actual_discard (hi : i < tb.totalSize) (hty : (tb.slots i).type ≠ none) :
    (tb.discard i).actual = tb.actual - 1 := by
  have h : (tb.discard i).actual =
      (tb.set i { tb.slots i with type := none, nRef := 0 }).actual := rfl
  rw [h, actual_set hi, if_neg hty, if_pos rfl]
  omega

theorem actual_destroy (hi : i < tb.totalSize) (hty : (tb.slots i).type ≠ none) :
    (tb.destroy i).actual =
      if (tb.slots i).nRef - 1 = 0 then tb.actual - 1 else tb.actual := by
  unfold destroy
  split_ifs
  · exact actual_discard hi hty
  · exact (actual_set hi _).trans (sub_add_cancel _ _)

end HandleTable

end Table

end Swinx
