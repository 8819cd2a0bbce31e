import Mathlib.Logic.Basic
import Mathlib.Data.List.Basic

/-!
# Triples for programs that may fail

A program is a value of `Except ε α`.  `Yields P Q x` tells that its result has `P`, or its error
has `Q`; the rules are those of the constructors, of the sequence and of consequence.

* `Yields.bind` — the rule of the sequence.
* `map_bind_congr` — the rule of the sequence for two programs that agree under a function.
* `foldlM_eq_ok` — a loop ends normally when all its steps do.
-/

namespace Swinx

variable {ε α β : Type*} {P P' : α → Prop} {Q Q' : ε → Prop} {R : β → Prop}

/-- **The result has `P`, the error has `Q`.** -/
def Yields (P : α → Prop) (Q : ε → Prop) : Except ε α → Prop
  | .ok a => P a
  | .error e => Q e

namespace Yields

@[simp] theorem ok_iff {a : α} : Yields P Q (.ok a) ↔ P a := Iff.rfl

theorem ok {a : α} (h : P a) : Yields P Q (.ok a) := h

theorem error {e : ε} (h : Q e) : Yields P Q (.error e) := h

theorem imp {x : Except ε α} (h : Yields P Q x) (hP : ∀ a, P a → P' a) (hQ : ∀ e, Q e → Q' e) :
    Yields P' Q' x := by
  cases x with
  | ok a => exact hP a h
  | error e => exact hQ e h

theorem mono {x : Except ε α} (h : Yields P Q x) (hP : ∀ a, P a → P' a) : Yields P' Q x :=
  h.imp hP fun _ he => he

/-- **The rule of the sequence.** -/
theorem bind {x : Except ε α} {f : α → Except ε β} (h : Yields P Q x)
    (hf : ∀ a, P a → Yields R Q (f a)) : Yields R Q (x.bind f) := by
  cases x with
  | ok a => exact hf a h
  | error e => exact h

theorem map {x : Except ε α} {f : α → β} (h : Yields P Q x) (hf : ∀ a, P a → R (f a)) :
    Yields R Q (x.map f) := by
  cases x with
  | ok a => exact hf a h
  | error e => exact h

theorem ite {c : Prop} [Decidable c] {x y : Except ε α} (hx : c → Yields P Q x)
    (hy : ¬ c → Yields P Q y) : Yields P Q (if c then x else y) := by
  by_cases h : c
  · rw [if_pos h]
    exact hx h
  · rw [if_neg h]
    exact hy h

end Yields

/-- Programs whose results agree under `f`, before and after they go on. -/
theorem map_bind_congr {γ : Type*} {f : α → γ} {x y : Except ε α} {g h : α → Except ε α}
    (hxy : x.map f = y.map f) (hgh : ∀ a b, f a = f b → (g a).map f = (h b).map f) :
    (x.bind g).map f = (y.bind h).map f := by
  cases x with
  | ok a =>
    cases y with
    | ok b => exact hgh a b (Except.ok.inj hxy)
    | error e => cases hxy
  | error e =>
    cases y with
    | ok b => cases hxy
    | error e' =>
      obtain rfl : e = e' := Except.error.inj hxy
      rfl

/-! ### Programs that end normally -/

theorem bind_eq_ok {x : Except ε α} {f : α → Except ε β} {b : β} :
    x.bind f = .ok b ↔ ∃ a, x = .ok a ∧ f a = .ok b := by
  cases x with
  | ok a => exact ⟨fun h => ⟨a, rfl, h⟩, fun ⟨_, ha, h⟩ => Except.ok.inj ha ▸ h⟩
  | error e => exact ⟨fun h => (nomatch h), fun ⟨_, ha, _⟩ => (nomatch ha)⟩

theorem map_eq_ok {x : Except ε α} {f : α → β} {b : β} :
    x.map f = .ok b ↔ ∃ a, x = .ok a ∧ f a = b := by
  cases x with
  | ok a => exact ⟨fun h => ⟨a, rfl, Except.ok.inj h⟩, fun ⟨_, ha, h⟩ => Except.ok.inj ha ▸ h ▸ rfl⟩
  | error e => exact ⟨fun h => (nomatch h), fun ⟨_, ha, _⟩ => (nomatch ha)⟩

/-- **A loop ends normally when all its steps do**, if the state does not matter for that. -/
theorem foldlM_eq_ok {step : β → α → Except ε β} {Good : α → Prop} {next : β → α → β}
    (h : ∀ s x s', step s x = .ok s' ↔ Good x ∧ next s x = s') {xs : List α} {s s' : β} :
    xs.foldlM step s = .ok s' ↔ (∀ x ∈ xs, Good x) ∧ xs.foldl next s = s' := by
  induction xs generalizing s with
  | nil =>
    simp only [List.not_mem_nil, false_imp_iff, implies_true, true_and]
    exact ⟨Except.ok.inj, congrArg Except.ok⟩
  | cons x xs ih =>
    have hstep : (x :: xs).foldlM step s = (step s x).bind fun u => xs.foldlM step u := rfl
    rw [hstep, bind_eq_ok, List.forall_mem_cons, List.foldl_cons]
    constructor
    · rintro ⟨u, hu, hxs⟩
      obtain ⟨hx, rfl⟩ := (h s x u).1 hu
      exact ⟨⟨hx, (ih.1 hxs).1⟩, (ih.1 hxs).2⟩
    · rintro ⟨⟨hx, hxs⟩, hs'⟩
      exact ⟨next s x, (h s x _).2 ⟨hx, rfl⟩, ih.2 ⟨hxs, hs'⟩⟩

theorem mapM_of_forall_ok {f : α → Except ε β} {g : α → β} {xs : List α}
    (h : ∀ x ∈ xs, f x = .ok (g x)) : xs.mapM f = .ok (xs.map g) := by
  induction xs with
  | nil => rfl
  | cons x xs ih =>
    rw [List.mapM_cons, h x List.mem_cons_self, ih fun y hy => h y (List.mem_cons_of_mem x hy)]
    rfl

theorem foldlM_flatMap {γ : Type*} {step : β → γ → Except ε β} {f : α → List γ} (xs : List α)
    (s : β) : (xs.flatMap f).foldlM step s = xs.foldlM (fun s x => (f x).foldlM step s) s := by
  induction xs generalizing s with
  | nil => rfl
  | cons x xs ih =>
    rw [List.flatMap_cons, List.foldlM_append, List.foldlM_cons]
    exact bind_congr ih

end Swinx
