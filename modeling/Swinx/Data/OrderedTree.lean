import Mathlib.Data.List.Basic

/-!
# Ordered trees

A forest is a list of nodes, and a node has a label and the forest of its children.  A forest below
another one is found by a path, which is the list of the places of the nodes on the way.

* `edit_append` — an edit below an edit.
* `sub_edit` — the forest at the path is changed.
* `labels_sub_edit` — the forests that are not below it keep their labels, in their order.
-/

namespace Swinx

namespace OrderedTree

/-- A node of an ordered tree. -/
inductive Node (α : Type) where
  | mk (label : α) (children : List (Node α))

/-- Ordered trees. -/
abbrev Forest (α : Type) := List (Node α)

variable {α : Type}

def Node.label : Node α → α
  | .mk a _ => a

def Node.children : Node α → Forest α
  | .mk _ f => f

/-- The labels of the roots. -/
def labels (f : Forest α) : List α := f.map Node.label

/-- The forest at a path. -/
def sub : List ℕ → Forest α → Option (Forest α)
  | [], f => some f
  | i :: p, f => f[i]?.bind fun n => sub p n.children

/-- The forest at a path is changed by `g`. -/
def edit (g : Forest α → Forest α) : List ℕ → Forest α → Forest α
  | [], f => g f
  | i :: p, f => f.modify i fun n => .mk n.label (edit g p n.children)

variable {f c : Forest α} {g g' : Forest α → Forest α} {p : List ℕ}

/-- **An edit below an edit.** -/
theorem edit_append (g : Forest α → Forest α) (p q : List ℕ) (f : Forest α) :
    edit g (p ++ q) f = edit (edit g q) p f := by
  induction p generalizing f with
  | nil => rfl
  | cons i p ih =>
    rw [List.cons_append, edit, edit]
    exact congrArg _ (funext fun n => congrArg _ (ih n.children))

theorem edit_congr (h : sub p f = some c) (hg : g c = g' c) : edit g p f = edit g' p f := by
  induction p generalizing f with
  | nil =>
    obtain rfl := Option.some.inj h
    exact hg
  | cons i p ih =>
    obtain ⟨n, hn, hsub⟩ := Option.bind_eq_some_iff.1 h
    rw [edit, edit, List.modify_eq_set_getElem?, List.modify_eq_set_getElem?, hn]
    simp only [Option.map_eq_map, Option.map_some, ih hsub]

theorem edit_id (p : List ℕ) (f : Forest α) : edit id p f = f := by
  induction p generalizing f with
  | nil => rfl
  | cons i p ih =>
    have hnode : (fun n : Node α => Node.mk n.label (edit id p n.children)) = id := by
      funext n
      cases n
      rw [ih]
      rfl
    rw [edit, hnode, List.modify_id]

theorem edit_eq_self (h : sub p f = some c) (hg : g c = c) : edit g p f = f :=
  (edit_congr h hg).trans (edit_id p f)

/-- **The forest at the path is changed.** -/
theorem sub_edit (h : sub p f = some c) : sub p (edit g p f) = some (g c) := by
  induction p generalizing f with
  | nil =>
    obtain rfl := Option.some.inj h
    rfl
  | cons i p ih =>
    obtain ⟨n, hn, hsub⟩ := Option.bind_eq_some_iff.1 h
    rw [sub, edit, List.getElem?_modify, hn]
    simp only [if_true, Option.map_eq_map, Option.map_some, Option.bind_some]
    exact ih hsub

theorem labels_modify (g : Node α → Forest α) (i : ℕ) (f : Forest α) :
    labels (f.modify i fun n => .mk n.label (g n)) = labels f := by
  refine List.ext_getElem? fun j => ?_
  rw [labels, labels, List.getElem?_map, List.getElem?_map, List.getElem?_modify]
  split_ifs
  · cases f[j]? <;> rfl
  · cases f[j]? <;> rfl

/-- **The forests that are not below the path keep their labels**, in their order. -/
theorem labels_sub_edit {q : List ℕ} (h : ¬ p <+: q) :
    (sub q (edit g p f)).map labels = (sub q f).map labels := by
  induction p generalizing f q with
  | nil => exact absurd List.nil_prefix h
  | cons i p ih =>
    cases q with
    | nil => exact congrArg some (labels_modify (fun n => edit g p n.children) i f)
    | cons j q =>
      rw [edit, sub, sub, List.getElem?_modify]
      split_ifs with hij
      · subst hij
        have hpq : ¬ p <+: q := fun hpq => h (List.cons_prefix_cons.2 ⟨rfl, hpq⟩)
        cases f[i]? with
        | none => rfl
        | some n => exact ih hpq
      · cases f[j]? <;> rfl

/-- An edit that changes the forest at the path changes the forest. -/
theorem edit_ne (h : sub p f = some c) (hg : g c ≠ c) : edit g p f ≠ f := by
  intro heq
  have hsub := sub_edit (g := g) h
  rw [heq, h] at hsub
  exact hg (Option.some.inj hsub).symm

end OrderedTree

end Swinx
