import Mathlib.Logic.Function.Basic
import Mathlib.Data.Option.Basic
import Mathlib.Data.List.Induction

/-!
# Executable labelled transition systems

A transition system is given by its successor function `next : S → L → Option S`: the label says
which party moves and how its choices fall, so a list of labels is a schedule and a schedule can
be run.  Safety claims are proved for every schedule, and refuted by evaluating one.

* `Reachable.invariant`, `run_invariant` — invariants over all runs, and over the runs whose steps
  all satisfy a side condition.
* `allStates_iff_allSteps` — a property that holds as long as the side condition does and breaks
  with the first step that violates it characterises the good runs exactly.
* `Simulates.reachable` — invariants of `B` are inherited by `A`.
-/

namespace Swinx

/-- A labelled transition system with an executable successor function. -/
structure LTS (S : Type*) (L : Type*) where
  /-- `next s l` is the state after the step `l`, if it is enabled in `s`. -/
  next : S → L → Option S

namespace LTS

variable {S T L M : Type*} (A : LTS S L)

/-- The state after a schedule. -/
def run : S → List L → Option S
  | s, [] => some s
  | s, l :: ls => (A.next s l).bind fun s' => run s' ls

/-- `s` is reached from `s₀` by some schedule. -/
def Reachable (s₀ s : S) : Prop := ∃ ls, A.run s₀ ls = some s

/-- `P` holds in every state of the run of `ls` from `s`. -/
def AllStates (P : S → Prop) : S → List L → Prop
  | s, [] => P s
  | s, l :: ls => P s ∧ ∀ s', A.next s l = some s' → AllStates P s' ls

/-- `G` holds of every step taken (the state before it and its label) in the run of `ls` from
`s`. -/
def AllSteps (G : S → L → Prop) : S → List L → Prop
  | _, [] => True
  | s, l :: ls => ∀ s', A.next s l = some s' → G s l ∧ AllSteps G s' ls

/-- A side condition that can be decided can be checked along a run. -/
instance decidableAllSteps (G : S → L → Prop) [∀ s l, Decidable (G s l)] :
    ∀ (s : S) (ls : List L), Decidable (A.AllSteps G s ls)
  | _, [] => .isTrue trivial
  | s, l :: ls =>
    match h : A.next s l with
    | none => .isTrue (by simp [AllSteps, h])
    | some u =>
      have := decidableAllSteps G u ls
      decidable_of_iff (G s l ∧ A.AllSteps G u ls) (by simp [AllSteps, h])

variable {A}

@[simp] theorem run_nil (s : S) : A.run s [] = some s := rfl

theorem run_cons (s : S) (l : L) (ls : List L) :
    A.run s (l :: ls) = (A.next s l).bind fun s' => A.run s' ls := rfl

theorem run_cons_eq_some {s s' : S} {l : L} {ls : List L} :
    A.run s (l :: ls) = some s' ↔ ∃ u, A.next s l = some u ∧ A.run u ls = some s' := by
  rw [run_cons, Option.bind_eq_some_iff]

theorem run_append (s : S) (ls ls' : List L) :
    A.run s (ls ++ ls') = (A.run s ls).bind fun s' => A.run s' ls' := by
  induction ls generalizing s with
  | nil => rfl
  | cons l ls ih =>
    rw [List.cons_append, run_cons, run_cons]
    cases A.next s l with
    | none => rfl
    | some u => exact ih u

namespace Reachable

theorem refl (s : S) : A.Reachable s s := ⟨[], rfl⟩

theorem of_next {s s' : S} {l : L} (h : A.next s l = some s') : A.Reachable s s' :=
  ⟨[l], by rw [run_cons, h]; rfl⟩

theorem trans {s u s' : S} (h : A.Reachable s u) (h' : A.Reachable u s') : A.Reachable s s' := by
  obtain ⟨ls, hls⟩ := h
  obtain ⟨ls', hls'⟩ := h'
  exact ⟨ls ++ ls', by rw [run_append, hls]; exact hls'⟩

end Reachable

/-! ### Invariants -/

/-- **The run lemma.**  A predicate preserved by the steps that satisfy `G` holds at the end of
every run whose steps all satisfy `G`. -/
theorem run_invariant {I : S → Prop} {G : S → L → Prop}
    (hstep : ∀ s l s', I s → G s l → A.next s l = some s' → I s') {s s' : S} {ls : List L}
    (h₀ : I s) (hG : A.AllSteps G s ls) (h : A.run s ls = some s') : I s' := by
  induction ls generalizing s with
  | nil => cases h; exact h₀
  | cons l ls ih =>
    obtain ⟨u, hu, hrun⟩ := run_cons_eq_some.1 h
    obtain ⟨hGl, hGls⟩ := hG u hu
    exact ih (hstep s l u h₀ hGl hu) hGls hrun

theorem allSteps_true (s : S) (ls : List L) : A.AllSteps (fun _ _ => True) s ls := by
  induction ls generalizing s with
  | nil => trivial
  | cons l ls ih => exact fun u _ => ⟨trivial, ih u⟩

theorem Reachable.invariant {I : S → Prop} {s₀ s : S} (h : A.Reachable s₀ s) (h₀ : I s₀)
    (hstep : ∀ s l s', I s → A.next s l = some s' → I s') : I s := by
  obtain ⟨ls, hls⟩ := h
  exact run_invariant (fun s l s' hI _ hn => hstep s l s' hI hn) h₀ (allSteps_true s₀ ls) hls

/-- **The run lemma with the steps taken so far.** -/
theorem run_history {I : List L → S → Prop} {s₀ : S} (h₀ : I [] s₀)
    (hstep : ∀ ls s l s', I ls s → A.next s l = some s' → I (ls ++ [l]) s') {ls : List L} {s : S}
    (h : A.run s₀ ls = some s) : I ls s := by
  induction ls using List.reverseRecOn generalizing s with
  | nil => cases h; exact h₀
  | append_singleton ls l ih =>
    rw [run_append, Option.bind_eq_some_iff] at h
    obtain ⟨u, hu, hl⟩ := h
    obtain ⟨s', hs', hnil⟩ := run_cons_eq_some.1 hl
    exact hstep ls u l s (ih hu) (Option.some.inj hnil ▸ hs')

theorem AllSteps.of_append {G : S → L → Prop} {s : S} {ls ls' : List L}
    (h : A.AllSteps G s (ls ++ ls')) : A.AllSteps G s ls := by
  induction ls generalizing s with
  | nil => trivial
  | cons l ls ih => exact fun u hu => ⟨(h u hu).1, ih (h u hu).2⟩

theorem AllSteps.of_append_right {G : S → L → Prop} {s u : S} {ls ls' : List L}
    (h : A.AllSteps G s (ls ++ ls')) (hrun : A.run s ls = some u) : A.AllSteps G u ls' := by
  induction ls generalizing s with
  | nil => exact Option.some.inj hrun ▸ h
  | cons l ls ih =>
    obtain ⟨v, hv, hrun⟩ := run_cons_eq_some.1 hrun
    exact ih (h v hv).2 hrun

/-- Side conditions that agree on the steps that can be taken hold of the same runs. -/
theorem allSteps_congr {G G' : S → L → Prop}
    (h : ∀ s l s', A.next s l = some s' → (G s l ↔ G' s l)) (s : S) (ls : List L) :
    A.AllSteps G s ls ↔ A.AllSteps G' s ls := by
  induction ls generalizing s with
  | nil => exact Iff.rfl
  | cons l ls ih =>
    exact forall_congr' fun u => forall_congr' fun hu => and_congr (h s l u hu) (ih u)

theorem AllStates.head {P : S → Prop} {s : S} {ls : List L} (h : A.AllStates P s ls) : P s := by
  cases ls with
  | nil => exact h
  | cons l ls => exact h.1

/-- Along a run whose steps satisfy `G`, an invariant that such steps preserve holds in every
state. -/
theorem allStates_of_allSteps {I P : S → Prop} {G : S → L → Prop} (hP : ∀ s, I s → P s)
    (hgood : ∀ s l s', I s → G s l → A.next s l = some s' → I s') {s : S} {ls : List L}
    (h₀ : I s) (h : A.AllSteps G s ls) : A.AllStates P s ls := by
  induction ls generalizing s with
  | nil => exact hP s h₀
  | cons l ls ih =>
    refine ⟨hP s h₀, fun u hu => ?_⟩
    obtain ⟨hG, hls⟩ := h u hu
    exact ih (hgood s l u h₀ hG hu) hls

/-- **Good runs are exactly the runs along which the property holds**, when the good steps keep
an invariant that implies the property and every bad step leads out of it. -/
theorem allStates_iff_allSteps {I P : S → Prop} {G : S → L → Prop} (hP : ∀ s, I s → P s)
    (hgood : ∀ s l s', I s → G s l → A.next s l = some s' → I s')
    (hbad : ∀ s l s', I s → A.next s l = some s' → P s' → G s l)
    {s : S} {ls : List L} (h₀ : I s) : A.AllStates P s ls ↔ A.AllSteps G s ls := by
  refine ⟨fun h => ?_, allStates_of_allSteps hP hgood h₀⟩
  induction ls generalizing s with
  | nil => trivial
  | cons l ls ih =>
    intro u hu
    have hG : G s l := hbad s l u h₀ hu (h.2 u hu).head
    exact ⟨hG, ih (hgood s l u h₀ hG hu) (h.2 u hu)⟩

/-- A property that a step leads to only from where it is good. -/
theorem AllStates.allSteps {P : S → Prop} {G : S → L → Prop}
    (hG : ∀ s l s', A.next s l = some s' → P s' → G s l) {s : S} {ls : List L}
    (h : A.AllStates P s ls) : A.AllSteps G s ls := by
  induction ls generalizing s with
  | nil => trivial
  | cons l ls ih => exact fun u hu => ⟨hG s l u hu (h.2 u hu).head, ih (h.2 u hu)⟩

theorem allSteps_and {G G' : S → L → Prop} {s : S} {ls : List L} :
    A.AllSteps (fun s l => G s l ∧ G' s l) s ls ↔ A.AllSteps G s ls ∧ A.AllSteps G' s ls := by
  induction ls generalizing s with
  | nil => exact ⟨fun _ => ⟨trivial, trivial⟩, fun _ => trivial⟩
  | cons l ls ih =>
    refine ⟨fun h => ⟨fun u hu => ⟨(h u hu).1.1, (ih.1 (h u hu).2).1⟩,
      fun u hu => ⟨(h u hu).1.2, (ih.1 (h u hu).2).2⟩⟩, fun h u hu => ?_⟩
    exact ⟨⟨(h.1 u hu).1, (h.2 u hu).1⟩, ih.2 ⟨(h.1 u hu).2, (h.2 u hu).2⟩⟩

/-- Along a run of good steps, every step is as the invariant makes a good step. -/
theorem AllSteps.imp_of_invariant {I : S → Prop} {G R : S → L → Prop}
    (hR : ∀ s l, I s → G s l → R s l)
    (hgood : ∀ s l s', I s → G s l → A.next s l = some s' → I s') {s : S} {ls : List L}
    (h₀ : I s) (h : A.AllSteps G s ls) : A.AllSteps R s ls := by
  induction ls generalizing s with
  | nil => trivial
  | cons l ls ih =>
    intro u hu
    obtain ⟨hG, hGs⟩ := h u hu
    exact ⟨hR s l h₀ hG, ih (hgood s l u h₀ hG hu) hGs⟩

/-! ### Simulation -/

variable (A) in
/-- Every step of `A` is matched, under the view `f`, by a run of `B`. -/
def Simulates (B : LTS T M) (f : S → T) : Prop :=
  ∀ s l s', A.next s l = some s' → B.Reachable (f s) (f s')

theorem Simulates.reachable {B : LTS T M} {f : S → T} (h : A.Simulates B f) {s₀ s : S}
    (hs : A.Reachable s₀ s) : B.Reachable (f s₀) (f s) :=
  hs.invariant (I := fun u => B.Reachable (f s₀) (f u)) (Reachable.refl _)
    fun _ _ _ hI hn => hI.trans (h _ _ _ hn)

end LTS

end Swinx
