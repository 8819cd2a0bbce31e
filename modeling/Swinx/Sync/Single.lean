import Swinx.LTS.Basic
import Swinx.Sync.Object
import Mathlib.Logic.Function.Basic

/-!
# One object and any number of threads

The interleaving semantics of the calls on one object: any thread that is not inside a call may
start one, and any thread inside a call may execute its next step.  `Single.next_cases` says once
what a step can do; the invariants of events, semaphores and mutexes are derived from it.
-/

namespace Swinx

namespace Sync

/-- The state of one object and of the calls on it. -/
structure Single where
  /-- The object. -/
  ob : Obj
  /-- Where each thread is in its call, if it is in one. -/
  op : Tid → Option Op
  /-- The effects so far, newest first. -/
  hist : List (Tid × Ev)

/-- The thread that moves, and what its environment decides. -/
abbrev Label := Tid × Act

namespace Single

/-- The effects of a step of `t`, newest first. -/
def tag (t : Tid) (r : Op.Res) (evs : List Ev) : List (Tid × Ev) :=
  (r.evs ++ evs).map (t, ·)

/-- One step of one thread. -/
def next (s : Single) (l : Label) : Option Single :=
  match s.op l.1, l.2 with
  | none, .start op =>
    if op.isEntry then some { s with op := Function.update s.op l.1 (some op) } else none
  | some op, a =>
    (op.act l.1 s.ob a).map fun x =>
      { ob := x.1,
        op := Function.update s.op l.1 x.2.1.toOp,
        hist := tag l.1 x.2.1 x.2.2 ++ s.hist }
  | none, _ => none

/-- The calls on one object as a transition system. -/
def lts : LTS Single Label := ⟨next⟩

/-- An object just created, with no call in progress. -/
def init (ob : Obj) : Single := ⟨ob, fun _ => none, []⟩

@[simp] theorem lts_next (s : Single) (l : Label) : lts.next s l = s.next l := rfl

/-- **What a step can do**: start a call, or execute one step of the thread's call. -/
theorem next_cases {s s' : Single} {l : Label} (h : s.next l = some s') :
    (∃ op, l.2 = .start op ∧ s.op l.1 = none ∧ op.isEntry = true ∧
      s' = { s with op := Function.update s.op l.1 (some op) }) ∨
    ∃ op ob' r evs, s.op l.1 = some op ∧ op.act l.1 s.ob l.2 = some (ob', r, evs) ∧
      s' = ⟨ob', Function.update s.op l.1 r.toOp, tag l.1 r evs ++ s.hist⟩ := by
  unfold next at h
  split at h
  · rename_i op hop ha
    split_ifs at h with hen
    exact .inl ⟨op, ha, hop, hen, (Option.some.inj h).symm⟩
  · rename_i op hop
    obtain ⟨⟨ob', r, evs⟩, hx, rfl⟩ := Option.map_eq_some_iff.1 h
    exact .inr ⟨op, ob', r, evs, hop, hx, rfl⟩
  · cases h

/-- The object is of kind `k` and every call in progress is at a place that `k` admits. -/
structure Fits (k : Kind) (s : Single) : Prop where
  kind : s.ob.data.kind = k
  op : ∀ t op, s.op t = some op → op.fits k = true

theorem fits_init (ob : Obj) : (init ob).Fits ob.data.kind := ⟨rfl, fun _ _ h => nomatch h⟩

theorem Fits.next {k : Kind} {s s' : Single} {l : Label} (h : s.Fits k)
    (hn : s.next l = some s') : s'.Fits k := by
  rcases next_cases hn with ⟨op, -, -, hen, rfl⟩ | ⟨op, ob', r, evs, hop, hact, rfl⟩
  · refine ⟨h.kind, fun u op' hu => ?_⟩
    by_cases hut : u = l.1
    · subst hut
      simp only [Function.update_self, Option.some.injEq] at hu
      exact hu ▸ Op.fits_of_isEntry hen k
    · exact h.op u op' (by simpa [hut] using hu)
  · have hk : ob'.data.kind = k := (Op.act_kind hact).trans h.kind
    refine ⟨hk, fun u op' hu => ?_⟩
    by_cases hut : u = l.1
    · subst hut
      simp only [Function.update_self] at hu
      cases r with
      | more op'' =>
        obtain rfl : op'' = op' := Option.some.inj hu
        exact h.kind ▸ Op.fits_act hact (h.kind.symm ▸ h.op _ _ hop)
      | ret _ => cases hu
    · exact h.op u op' (by simpa [hut] using hu)

theorem next_of_start {s : Single} {t : Tid} {op : Op} (hop : s.op t = none)
    (hen : op.isEntry = true) :
    s.next (t, .start op) = some { s with op := Function.update s.op t (some op) } := by
  simp [next, hop, hen]

theorem next_of_act {s : Single} {t : Tid} {a : Act} {op : Op} {ob' : Obj} {r : Op.Res}
    {evs : List Ev} (hop : s.op t = some op) (h : op.act t s.ob a = some (ob', r, evs)) :
    s.next (t, a) = some ⟨ob', Function.update s.op t r.toOp, tag t r evs ++ s.hist⟩ := by
  simp [next, hop, h]

end Single

end Sync

end Swinx
