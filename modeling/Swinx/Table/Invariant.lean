import Swinx.Table.Basic

/-!
# The invariant of the handle table

`Consistent` is what the table should satisfy after every operation: the header's counter is the
number of occupied slots, every occupied slot counts the objects attached to it, and no two of them
have the same type and name.  A failed operation should leave the table as it was (`Unchanged`).

`init` breaks both when its `init2` fails on a slot that it has found, not claimed: its failure
branch frees the slot under the objects attached to it (`Table.slot_freed`).
`Table.consistent_iff` says that nothing else does, but a name that does not fit into its slot.
-/

namespace Swinx

namespace Table

/-- The table and the indices of the live objects of all processes (`none` for `-1`). -/
structure State (D : Type*) where
  tb : HandleTable D
  live : List (Option ℕ)

/-- A critical section of the table. -/
inductive Section (D : Type*) where
  /-- The probe of `Create…` and `Open…`; does the `init2` of the object found succeed? -/
  | openExist (name : Name) (ty : HandleType) (ok : Bool)
  /-- The `init` of a new object; does its `init2` succeed? -/
  | init (name : Name) (ty : HandleType) (data : D) (ok : Bool)
  /-- The destructor of an object with index `x`. -/
  | destroy (x : Option ℕ)

variable {D : Type*}

namespace State

/-- One critical section. -/
def next (s : State D) : Section D → Option (State D)
  | .openExist name ty ok =>
    match s.tb.openExist name ty ok with
    | (tb, some x) => some ⟨tb, x :: s.live⟩
    | (tb, none) => some ⟨tb, s.live⟩
  | .init name ty data ok =>
    match s.tb.init name ty data ok with
    | some (tb, some i) => some ⟨tb, some i :: s.live⟩
    | some (tb, none) => some ⟨tb, s.live⟩
    | none => none
  | .destroy x =>
    if x ∈ s.live then
      some ⟨match x with
        | some i => s.tb.destroy i
        | none => s.tb, s.live.erase x⟩
    else none

/-- The table as a transition system. -/
def lts : LTS (State D) (Section D) := ⟨next⟩

@[simp] theorem lts_next (s : State D) (l : Section D) : lts.next s l = s.next l := rfl

/-- A table just created. -/
def created (totalSize : ℕ) (sl : HandleData D) : State D := ⟨.empty totalSize sl, []⟩

end State

open HandleTable

/-- **The table is consistent.** -/
structure Consistent (s : State D) : Prop where
  /-- The counter is the number of occupied slots. -/
  used : s.tb.used = s.tb.actual
  /-- Every occupied slot counts the live objects attached to it, and there is one. -/
  nRef : ∀ i, i < s.tb.totalSize → (s.tb.slots i).type ≠ none →
    (s.tb.slots i).nRef = s.live.count (some i) ∧ 1 ≤ (s.tb.slots i).nRef
  /-- No two occupied slots have the same type and name. -/
  distinct : ∀ i j, i < s.tb.totalSize → j < s.tb.totalSize → (s.tb.slots i).type ≠ none →
    (s.tb.slots i).type = (s.tb.slots j).type →
      (s.tb.slots i).szNick = (s.tb.slots j).szNick → i = j
  /-- Every name has been copied into the array for it. -/
  intact : s.tb.overrun = false

/-- The section is one of a `Create…` or `Open…` that fails. -/
def Fails (s : State D) : Section D → Prop
  | .openExist name ty ok => ok = false ∨ s.tb.findExisted name ty = none
  | .init _ _ _ ok => ok = false
  | .destroy _ => False

/-- A failed operation leaves every occupied slot and the counter as they were. -/
def Unchanged (s : State D) (l : Section D) : Prop :=
  Fails s l → ∀ s', s.next l = some s' → s'.tb.used = s.tb.used ∧
    ∀ i, i < s.tb.totalSize → (s.tb.slots i).type ≠ none → s'.tb.slots i = s.tb.slots i

/-- The section is not an `init` whose `init2` fails on a slot that somebody else owns. -/
def OwnSlot (s : State D) : Section D → Prop
  | .init name ty _ ok => ok = false → s.tb.findExisted name ty = none
  | _ => True

/-- The section is not an `init` that claims a slot for a name that does not fit into it. -/
def NickFits (s : State D) : Section D → Prop
  | .init name ty _ _ => s.tb.findExisted name ty = none → name.length < SIZEOF_NICK
  | _ => True

/-! ### What the sections do -/

/-- **What a section does to a table.** -/
inductive Step : State D → State D → Prop
  | idle (s : State D) : Step s s
  /-- A handle without an object. -/
  | handle (s : State D) : Step s ⟨s.tb, none :: s.live⟩
  | attach (s : State D) (i : ℕ) : i < s.tb.totalSize → (s.tb.slots i).type ≠ none →
    Step s ⟨s.tb.attach i, some i :: s.live⟩
  | create (s : State D) (i : ℕ) (name : Name) (ty : HandleType) (data : D) :
    i < s.tb.totalSize → (s.tb.slots i).type = none → s.tb.findExisted name ty = none →
    name.length < SIZEOF_NICK → Step s ⟨(s.tb.claim i name ty data).attach i, some i :: s.live⟩
  | fail (s : State D) (i : ℕ) (name : Name) (ty : HandleType) (data : D) :
    i < s.tb.totalSize → (s.tb.slots i).type = none → name.length < SIZEOF_NICK →
    Step s ⟨(s.tb.claim i name ty data).discard i, s.live⟩
  | destroy (s : State D) (i : ℕ) : some i ∈ s.live →
    Step s ⟨s.tb.destroy i, s.live.erase (some i)⟩
  | close (s : State D) : none ∈ s.live → Step s ⟨s.tb, s.live.erase none⟩

theorem step_of_next {s s' : State D} {l : Section D} (hG : OwnSlot s l) (hN : NickFits s l)
    (h : s.next l = some s') : Step s s' := by
  cases l with
  | openExist name ty ok =>
    simp only [State.next, openExist] at h
    cases hf : s.tb.findExisted name ty with
    | none => rw [hf] at h; cases h; exact .idle s
    | some i =>
      rw [hf] at h
      obtain ⟨hi, hty, -⟩ := findExisted_eq_some hf
      cases ok with
      | true => cases h; exact .attach s i hi (by simp [hty])
      | false => cases h; exact .handle s
  | init name ty data ok =>
    simp only [State.next, init] at h
    cases hf : s.tb.findExisted name ty with
    | some i =>
      rw [hf] at h
      obtain ⟨hi, hty, -⟩ := findExisted_eq_some hf
      cases ok with
      | true => cases h; exact .attach s i hi (by simp [hty])
      | false => rw [hG rfl] at hf; cases hf
    | none =>
      rw [hf] at h
      cases ha : s.tb.findAvailable with
      | none => rw [ha] at h; cases h
      | some i =>
        rw [ha] at h
        obtain ⟨hi, hty⟩ := findAvailable_eq_some ha
        cases ok with
        | true => cases h; exact .create s i name ty data hi hty hf (hN hf)
        | false => cases h; exact .fail s i name ty data hi hty (hN hf)
  | destroy x =>
    simp only [State.next] at h
    split_ifs at h with hx
    cases h
    cases x with
    | none => exact .close s hx
    | some i => exact .destroy s i hx

/-- Consistency, and objects are attached to occupied slots only. -/
structure Inv (s : State D) : Prop where
  base : Consistent s
  bound : ∀ i, some i ∈ s.live → i < s.tb.totalSize
  free : ∀ i, i < s.tb.totalSize → (s.tb.slots i).type = none → some i ∉ s.live

theorem inv_created (n : ℕ) (sl : HandleData D) : Inv (State.created n sl) where
  base :=
    { used := by simp [State.created, HandleTable.empty, actual]
      nRef := fun _ _ h => absurd rfl h
      distinct := fun _ _ _ _ h => absurd rfl h
      intact := rfl }
  bound := nofun
  free := nofun

theorem Inv.step {s s' : State D} (hI : Inv s) (h : Step s s') : Inv s' := by
  obtain ⟨⟨hused, hnRef, hdist, hover⟩, hbound, hfree⟩ := hI
  cases h with
  | idle => exact ⟨⟨hused, hnRef, hdist, hover⟩, hbound, hfree⟩
  | handle =>
    exact ⟨⟨hused, by simpa using hnRef, hdist, hover⟩, by simpa using hbound, by simpa using hfree⟩
  | close hn =>
    refine ⟨⟨hused, fun i hi hty => ?_, hdist, hover⟩,
      fun i hi => hbound i (List.mem_of_mem_erase hi),
      fun i hi hty hm => hfree i hi hty (List.mem_of_mem_erase hm)⟩
    rw [List.count_erase_of_ne (by simp)]
    exact hnRef i hi hty
  | attach i hi hty =>
    have hcount := hnRef i hi hty
    refine ⟨⟨?_, fun j hj hty' => ?_, fun j k hj hk => ?_, ?_⟩, ?_, ?_⟩
    · simpa [actual_attach hi] using hused
    · have := hnRef j hj
      grind
    · have := hdist j k hj hk
      grind
    · exact hover
    · grind
    · grind
  | create i name ty data hi hty hf hfits =>
    have hnew : ∀ j, j < s.tb.totalSize →
        ¬ ((s.tb.slots j).type = some ty ∧ (s.tb.slots j).szNick = name) :=
      fun j hj => findExisted_eq_none hf hj
    have hcount : s.live.count (some i) = 0 := List.count_eq_zero.2 (hfree i hi hty)
    refine ⟨⟨?_, fun j hj hty' => ?_, fun j k hj hk => ?_, ?_⟩, ?_, ?_⟩
    · have hact : ((s.tb.claim i name ty data).attach i).actual =
          (s.tb.claim i name ty data).actual := actual_attach hi
      simp [hact, actual_claim hi hty, hused]
    · have := hnRef j hj
      grind
    · have := hdist j k hj hk
      have := hnew j hj
      have := hnew k hk
      grind
    · simpa [hover] using hfits
    · grind
    · grind
  | fail i name ty data hi hty hfits =>
    refine ⟨⟨?_, fun j hj hty' => ?_, fun j k hj hk => ?_, ?_⟩, ?_, ?_⟩
    · have hocc : ((s.tb.claim i name ty data).slots i).type ≠ none := by simp [slots_claim]
      have hact : ((s.tb.claim i name ty data).discard i).actual =
          (s.tb.claim i name ty data).actual - 1 := actual_discard hi hocc
      simp [hact, actual_claim hi hty, hused]
    · have := hnRef j hj
      grind
    · have := hdist j k hj hk
      grind
    · simpa [hover] using hfits
    · grind
    · grind
  | destroy i hm =>
    have hi := hbound i hm
    have hty : (s.tb.slots i).type ≠ none := fun h => hfree i hi h hm
    obtain ⟨hcount, -⟩ := hnRef i hi hty
    have hpos : 0 < s.live.count (some i) := List.count_pos_iff.2 hm
    have hn : (s.tb.destroy i).totalSize = s.tb.totalSize := totalSize_destroy s.tb i
    have hself : (s.live.erase (some i)).count (some i) = s.live.count (some i) - 1 :=
      List.count_erase_self
    have hother : ∀ j, j ≠ i → (s.live.erase (some i)).count (some j) = s.live.count (some j) :=
      fun j hj => List.count_erase_of_ne (by simpa using hj)
    refine ⟨⟨?_, fun j hj hty' => ?_, fun j k hj hk => ?_, ?_⟩, fun j hj => ?_,
      fun j hj hty' hm' => ?_⟩
    · rw [used_destroy, actual_destroy hi hty, hused]
    · have := hnRef j (hn ▸ hj)
      grind
    · have := hdist j k (hn ▸ hj) (hn ▸ hk)
      grind
    · exact (overrun_destroy s.tb i).trans hover
    · exact hn ▸ hbound j (List.mem_of_mem_erase hj)
    · have := hfree j (hn ▸ hj)
      have hpos' := List.count_pos_iff.2 hm'
      have := List.mem_of_mem_erase hm'
      grind

/-- **Consistency is kept** by every section that neither fails on somebody else's slot nor
overruns its own. -/
theorem Inv.next {s s' : State D} {l : Section D} (hI : Inv s) (hG : OwnSlot s l ∧ NickFits s l)
    (h : s.next l = some s') : Inv s' :=
  hI.step (step_of_next hG.1 hG.2 h)

/-- A name that does not fit overruns the slot that is claimed for it. -/
theorem nickFits_of_intact {s s' : State D} {l : Section D} (h : s.next l = some s')
    (hs : s'.tb.overrun = false) : NickFits s l := by
  cases l with
  | openExist | destroy => trivial
  | init name ty data ok =>
    intro hf
    simp only [State.next, init, hf] at h
    cases ha : s.tb.findAvailable with
    | none => rw [ha] at h; cases h
    | some i =>
      rw [ha] at h
      cases ok <;> cases h <;> simpa using (Bool.or_eq_false_iff.1 hs).2

/-- A section leaves the table unchanged if it fails, unless it fails on somebody else's slot. -/
theorem unchanged_iff_ownSlot {s s₁ : State D} {l : Section D}
    (h : s.next l = some s₁) : Unchanged s l ↔ OwnSlot s l := by
  cases l with
  | openExist name ty ok =>
    refine ⟨fun _ => trivial, fun _ hf s' hs' => ?_⟩
    simp only [State.next, openExist] at hs'
    cases he : s.tb.findExisted name ty with
    | none => rw [he] at hs'; cases hs'; exact ⟨rfl, fun _ _ _ => rfl⟩
    | some i =>
      obtain rfl : ok = false := hf.resolve_right (by simp [he])
      rw [he] at hs'
      cases hs'
      exact ⟨rfl, fun _ _ _ => rfl⟩
  | init name ty data ok =>
    constructor
    · rintro hU rfl
      cases he : s.tb.findExisted name ty with
      | none => rfl
      | some i =>
        obtain ⟨hi, hty, -⟩ := findExisted_eq_some he
        have hnext : s.next (.init name ty data false) = some ⟨s.tb.discard i, s.live⟩ := by
          simp [State.next, init, he, initAt]
        have hslot := (hU rfl _ hnext).2 i hi (by simp [hty])
        rw [slots_discard, if_pos rfl] at hslot
        rw [← hslot] at hty
        cases hty
    · rintro hG rfl s' hs'
      simp only [State.next, init, hG rfl] at hs'
      cases ha : s.tb.findAvailable with
      | none => rw [ha] at hs'; cases hs'
      | some i =>
        rw [ha] at hs'
        obtain ⟨hi, hty⟩ := findAvailable_eq_some ha
        cases hs'
        refine ⟨by simp, fun j hj hty' => ?_⟩
        grind
  | destroy x => exact ⟨fun _ => trivial, fun _ hf => hf.elim⟩

/-- **The table stays consistent and failed operations leave it unchanged exactly in the runs in
which no `init` fails on a slot that somebody else owns, or copies a name that does not fit into its
slot**: any number of processes, any sequence of critical sections, any results of the system
calls. -/
theorem consistent_iff (totalSize : ℕ) (sl : HandleData D) (ls : List (Section D)) :
    (State.lts.AllStates Consistent (State.created totalSize sl) ls ∧
        State.lts.AllSteps Unchanged (State.created totalSize sl) ls) ↔
      State.lts.AllSteps (fun s l => OwnSlot s l ∧ NickFits s l)
        (State.created totalSize sl) ls := by
  have hsteps : State.lts.AllSteps Unchanged (State.created totalSize sl) ls ↔
      State.lts.AllSteps OwnSlot (State.created totalSize sl) ls :=
    LTS.allSteps_congr (fun s l s₁ hn => unchanged_iff_ownSlot hn) _ _
  rw [hsteps]
  refine ⟨fun h => LTS.allSteps_and.2 ⟨h.2, h.1.allSteps fun s l s' hn hc =>
    nickFits_of_intact hn hc.intact⟩, fun h => ⟨?_, (LTS.allSteps_and.1 h).1⟩⟩
  exact LTS.allStates_of_allSteps (I := Inv) (fun _ hI => hI.base)
    (fun _ _ _ hI hG hn => hI.next hG hn) (inv_created totalSize sl) h

/-- Two processes create the timer `t`, and the second one runs out of descriptors; then the event
`e` is created. -/
def failedCreate : List (Section Unit) :=
  [.init [116] .namedTimer () true, .init [116] .namedTimer () false,
    .openExist [101] .namedEvent true, .init [101] .namedEvent () true]

/-- **A failed `init` can free a slot under its owners.**  The second process fails and changes the
slot of the first; afterwards two objects of different names share a slot that counts one. -/
theorem slot_freed : ∃ s, State.lts.run (State.created 4 ⟨none, 0, [], ()⟩) failedCreate = some s ∧
    (s.tb.slots 0).szNick = [101] ∧ (s.tb.slots 0).nRef = 1 ∧ s.live = [some 0, some 0] ∧
    ¬ Consistent s ∧
    ¬ State.lts.AllSteps Unchanged (State.created 4 ⟨none, 0, [], ()⟩) failedCreate := by
  refine ⟨_, rfl, rfl, rfl, rfl, fun h => ?_, fun h => ?_⟩
  · exact absurd (h.nRef 0 (by decide) (by decide)).1 (by decide)
  · have h₂ := ((h _ rfl).2 _ rfl).1
    have h₃ := ((unchanged_iff_ownSlot rfl).1 h₂) rfl
    exact absurd h₃ (by decide)

end Table

end Swinx
