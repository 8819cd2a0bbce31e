import Swinx.LTS.Basic
import Mathlib.Algebra.Order.Group.Int
import Mathlib.Logic.Function.Iterate

/-!
# SaveDC and RestoreDC

A device context keeps its attributes in a stack, and the graphics library keeps a stack of its own
beside it: each `SaveDC` pushes on both, each level of a `RestoreDC` pops both.  A level is named by
the number that `SaveDC` returned, or by `-1` for the last one.

The matrix of a context and the graphics state of the library (clip, matrix, antialias and so on)
are types of which nothing is known.  What a setter or a drawing call does to the attributes and to
the graphics state is any change of them.  Selecting another bitmap makes a new context of the
library, which has no saved states.  Memory does not run out.

* `sound_and_refuses_iff` — the runs that are sound and refuse are the orderly ones.
* `restoreState_save` — a level that is not undone is restored to the very context that was saved.
* `saveDC_stack` — all this together.
-/

namespace Swinx

namespace Gdi

/-! ### The graphics library -/

/-- `cairo_t`: the graphics state, the saved ones (the last one first), and whether there was no
error. -/
structure Cairo (G : Type*) where
  gstate : G
  saved : List G
  ok : Bool

variable {M G : Type*}

def Cairo.create (g : G) : Cairo G := ⟨g, [], true⟩

def Cairo.save (cr : Cairo G) : Cairo G :=
  if cr.ok then
    { cr with
      saved := cr.gstate :: cr.saved }
  else cr

/-- `cairo_restore`: without a saved state the context has an error from then on. -/
def Cairo.restore (cr : Cairo G) : Cairo G :=
  if cr.ok then
    match cr.saved with
    | [] =>
      { cr with
        ok := false }
    | g :: saved =>
      { cr with
        gstate := g
        saved := saved }
  else cr

/-- A call that changes the graphics state; after an error it does nothing. -/
def Cairo.change (f : G → G) (cr : Cairo G) : Cairo G :=
  if cr.ok then
    { cr with
      gstate := f cr.gstate }
  else cr

/-! ### Device contexts -/

/-- `DCState` -/
structure DCState (M : Type*) where
  pen : ℕ
  brush : ℕ
  hfont : ℕ
  mtx : M
  ptOrigin : ℤ × ℤ
  crText : ℕ
  crBk : ℕ
  bkMode : ℤ
  textAlign : ℕ
  rop2 : ℤ
  polyFillMode : ℤ
  graphicsMode : ℤ
  brushOrg : ℤ × ℤ

/-- `HDC__` -/
structure HDC (M G : Type*) where
  cairo : Option (Cairo G)
  mtx : M
  ptOrigin : ℤ × ℤ
  bmp : ℕ
  crText : ℕ
  crBk : ℕ
  pen : ℕ
  brush : ℕ
  hfont : ℕ
  bkMode : ℤ
  nSave : ℤ
  textAlign : ℕ
  rop2 : ℤ
  polyFillMode : ℤ
  graphicsMode : ℤ
  brushOrg : ℤ × ℤ
  /-- The last one first. -/
  stateStack : List (DCState M)

/-- The attributes, as `SaveState` copies them. -/
def HDC.state (dc : HDC M G) : DCState M where
  pen := dc.pen
  brush := dc.brush
  hfont := dc.hfont
  ptOrigin := dc.ptOrigin
  mtx := dc.mtx
  crText := dc.crText
  crBk := dc.crBk
  bkMode := dc.bkMode
  textAlign := dc.textAlign
  rop2 := dc.rop2
  polyFillMode := dc.polyFillMode
  graphicsMode := dc.graphicsMode
  brushOrg := dc.brushOrg

/-- The attributes are set. -/
def HDC.setState (dc : HDC M G) (state : DCState M) : HDC M G :=
  { dc with
    crText := state.crText
    crBk := state.crBk
    pen := state.pen
    brush := state.brush
    hfont := state.hfont
    bkMode := state.bkMode
    textAlign := state.textAlign
    rop2 := state.rop2
    polyFillMode := state.polyFillMode
    graphicsMode := state.graphicsMode
    brushOrg := state.brushOrg
    ptOrigin := state.ptOrigin
    mtx := state.mtx }

/-- `SaveState`, with what it returns. -/
def HDC.saveState (dc : HDC M G) : HDC M G × ℤ :=
  match dc.cairo with
  | none => (dc, 0)
  | some cr =>
    ({ dc with
        stateStack := dc.state :: dc.stateStack
        cairo := some cr.save
        nSave := dc.nSave + 1 }, dc.nSave + 1)

/-- `_RestoreState` -/
def HDC.applyState (dc : HDC M G) (state : DCState M) : HDC M G :=
  { dc.setState state with
    cairo := dc.cairo.map Cairo.restore }

/-- One level: the last state is popped and restored. -/
def HDC.popState (dc : HDC M G) : HDC M G :=
  match dc.stateStack with
  | [] => dc
  | state :: stack =>
    { dc.applyState state with
      stateStack := stack
      nSave := dc.nSave - 1 }

/-- The loop of `RestoreState` down to the level `nState`, with `n` states in the stack. -/
def HDC.unwind (nState : ℤ) : ℕ → HDC M G → HDC M G × Bool
  | 0, dc => (dc, decide (dc.nSave < nState))
  | n + 1, dc => if nState ≤ dc.nSave then unwind nState n dc.popState else (dc, true)

/-- `RestoreState`, with what it returns. -/
def HDC.restoreState (dc : HDC M G) (nState : ℤ) : HDC M G × Bool :=
  match dc.cairo with
  | none => (dc, false)
  | some _ =>
    if nState > dc.nSave then (dc, false)
    else if nState < 0 then
      match dc.stateStack with
      | [] => (dc, false)
      | _ :: _ => (dc.popState, true)
    else dc.unwind nState dc.stateStack.length

/-- `SelectObject` of a bitmap; `surface` is the graphics state of a new context for it, if it has
pixels. -/
def HDC.selectBitmap (dc : HDC M G) (h : ℕ) (surface : Option G) : HDC M G :=
  if h = dc.bmp then dc
  else
    { dc with
      cairo := surface.map Cairo.create
      bmp := h }

/-- What happens to a context. -/
inductive Act (M G : Type*)
  /-- Calls that set the attributes and change the graphics state. -/
  | change (state : DCState M) (f : G → G)
  | selectBitmap (h : ℕ) (surface : Option G)
  | saveDC
  | restoreDC (nSavedDC : ℤ)

def step (dc : HDC M G) : Act M G → HDC M G
  | .change state f =>
    { dc.setState state with
      cairo := dc.cairo.map (Cairo.change f) }
  | .selectBitmap h surface => dc.selectBitmap h surface
  | .saveDC => dc.saveState.1
  | .restoreDC nSavedDC => (dc.restoreState nSavedDC).1

/-- A context under what happens to it. -/
def lts (M G : Type*) : LTS (HDC M G) (Act M G) where
  next dc act := some (step dc act)

/-- A context with a bitmap and attributes, before anything is saved. -/
def HDC.create (bmp : ℕ) (surface : Option G) (state : DCState M) : HDC M G where
  cairo := surface.map Cairo.create
  mtx := state.mtx
  ptOrigin := state.ptOrigin
  bmp := bmp
  crText := state.crText
  crBk := state.crBk
  pen := state.pen
  brush := state.brush
  hfont := state.hfont
  bkMode := state.bkMode
  nSave := 0
  textAlign := state.textAlign
  rop2 := state.rop2
  polyFillMode := state.polyFillMode
  graphicsMode := state.graphicsMode
  brushOrg := state.brushOrg
  stateStack := []

/-- **The stacks agree**: `nSave` is the number of saved states, and the library has as many and no
error. -/
structure Sound (dc : HDC M G) : Prop where
  nSave : dc.nSave = dc.stateStack.length
  cairo : ∀ cr, dc.cairo = some cr → cr.ok = true ∧ cr.saved.length = dc.stateStack.length
  none : dc.cairo = none → dc.stateStack = []

/-- Does the argument name a saved state? -/
def Names (dc : HDC M G) (nSavedDC : ℤ) : Prop :=
  1 ≤ nSavedDC ∧ nSavedDC ≤ dc.nSave ∨ nSavedDC = -1 ∧ dc.stateStack ≠ []

/-- **An argument that names no saved state is refused.** -/
def Refuses (dc : HDC M G) : Act M G → Prop
  | .restoreDC nSavedDC => Names dc nSavedDC ∨ dc.restoreState nSavedDC = (dc, false)
  | _ => True

/-- **Orderly steps**: with saved states the bitmap stays, and `RestoreDC` is not called with `0`
or with a number below `-1`. -/
def Orderly (dc : HDC M G) : Act M G → Prop
  | .selectBitmap h _ => h = dc.bmp ∨ dc.stateStack = []
  | .restoreDC nSavedDC => dc.stateStack = [] ∨ nSavedDC ≠ 0 ∧ -1 ≤ nSavedDC
  | _ => True

/-! ### Levels -/

section

variable {dc t : HDC M G}

theorem popState_cons {state : DCState M} {stack : List (DCState M)}
    (h : dc.stateStack = state :: stack) :
    dc.popState = { dc.applyState state with
      stateStack := stack
      nSave := dc.nSave - 1 } := by
  simp only [HDC.popState, h]

theorem popState_nil (h : dc.stateStack = []) : dc.popState = dc := by
  simp only [HDC.popState, h]

theorem length_popState : dc.popState.stateStack.length = dc.stateStack.length - 1 := by
  cases h : dc.stateStack with
  | nil => rw [popState_nil h, h]; rfl
  | cons state stack => rw [popState_cons h]; rfl

theorem length_iterate_popState (n : ℕ) (dc : HDC M G) :
    (HDC.popState^[n] dc).stateStack.length = dc.stateStack.length - n := by
  induction n generalizing dc with
  | zero => rfl
  | succ n ih => rw [Function.iterate_succ_apply, ih, length_popState, Nat.sub_sub, Nat.add_comm]

theorem popState_saveState (hdc : Sound dc) (hc : dc.cairo ≠ none) :
    dc.saveState.1.popState = dc := by
  obtain ⟨cr, hcr⟩ := Option.ne_none_iff_exists'.1 hc
  obtain ⟨hok, -⟩ := hdc.cairo cr hcr
  have hrestore : cr.save.restore = cr := by
    cases cr
    simp only at hok
    simp only [Cairo.save, Cairo.restore, hok, if_true]
  cases dc
  simp only at hcr
  subst hcr
  simp only [HDC.saveState, HDC.popState, HDC.applyState, HDC.setState, HDC.state, Option.map_some,
    hrestore, Int.add_sub_cancel]

theorem popState_change (hdc : Sound dc) (hne : dc.stateStack ≠ []) (state : DCState M)
    (f : G → G) : (step dc (.change state f)).popState = dc.popState := by
  obtain ⟨cr, hcr⟩ := Option.ne_none_iff_exists'.1 fun h => hne (hdc.none h)
  obtain ⟨hok, hlen⟩ := hdc.cairo cr hcr
  obtain ⟨last, stack, hstack⟩ := List.exists_cons_of_ne_nil hne
  obtain ⟨g, saved, hsaved⟩ := List.exists_cons_of_ne_nil (l := cr.saved) (by
    rintro hnil
    rw [hnil, hstack] at hlen
    cases hlen)
  have hrestore : (cr.change f).restore = cr.restore := by
    simp only [Cairo.change, Cairo.restore, hok, if_true, hsaved]
  rw [popState_cons hstack, popState_cons (show (step dc (.change state f)).stateStack = _ from
    hstack)]
  simp only [step, HDC.applyState, HDC.setState, hcr, Option.map_some, hrestore]

theorem Sound.popState (hdc : Sound dc) : Sound dc.popState := by
  cases hstack : dc.stateStack with
  | nil => rwa [popState_nil hstack]
  | cons state stack =>
    obtain ⟨cr, hcr⟩ := Option.ne_none_iff_exists'.1 fun h => by
      rw [hdc.none h] at hstack
      cases hstack
    obtain ⟨hok, hlen⟩ := hdc.cairo cr hcr
    rw [hstack] at hlen
    obtain ⟨g, saved, hsaved⟩ := List.exists_cons_of_length_eq_add_one hlen
    rw [popState_cons hstack]
    refine ⟨?_, fun cr' hcr' => ?_, fun hnone => ?_⟩
    · have := hdc.nSave
      rw [hstack, List.length_cons] at this
      simp only
      omega
    · simp only [HDC.applyState, hcr, Option.map_some, Option.some.injEq] at hcr'
      subst hcr'
      rw [hsaved, List.length_cons, List.length_cons] at hlen
      simp only [Cairo.restore, hok, if_true, hsaved]
      exact ⟨trivial, Nat.succ.inj hlen⟩
    · simp only [HDC.applyState, hcr, Option.map_some, reduceCtorEq] at hnone

theorem Sound.iterate_popState (hdc : Sound dc) (n : ℕ) : Sound (HDC.popState^[n] dc) := by
  induction n generalizing dc with
  | zero => exact hdc
  | succ n ih => exact ih hdc.popState

theorem unwind_pos {k : ℕ} (hk : 1 ≤ k) (n : ℕ) (hdc : Sound dc)
    (hn : dc.stateStack.length = n) :
    dc.unwind k n = (HDC.popState^[n + 1 - k] dc, true) := by
  induction n generalizing dc with
  | zero =>
    have hsave : dc.nSave < k := by
      rw [hdc.nSave, hn]
      exact_mod_cast hk
    rw [HDC.unwind, decide_eq_true hsave, show 0 + 1 - k = 0 by omega]
    rfl
  | succ n ih =>
    rw [HDC.unwind, hdc.nSave, hn]
    split_ifs with hle
    · have hle : k ≤ n + 1 := by exact_mod_cast hle
      rw [ih hdc.popState (by rw [length_popState, hn]; rfl),
        show n + 1 + 1 - k = n + 1 - k + 1 by omega, Function.iterate_succ_apply]
    · have hlt : n + 1 < k := by exact_mod_cast not_le.1 hle
      rw [show n + 1 + 1 - k = 0 by omega]
      rfl

/-- For the level `0` the loop pops all and then finds no more. -/
theorem unwind_zero (n : ℕ) (hdc : Sound dc) (hn : dc.stateStack.length = n) :
    dc.unwind 0 n = (HDC.popState^[n] dc, false) := by
  induction n generalizing dc with
  | zero =>
    have hsave : ¬ dc.nSave < 0 := by
      rw [hdc.nSave, hn]
      exact lt_irrefl _
    rw [HDC.unwind, decide_eq_false hsave]
    rfl
  | succ n ih =>
    rw [HDC.unwind, hdc.nSave, hn, if_pos (Int.natCast_nonneg _),
      ih hdc.popState (by rw [length_popState, hn]; rfl), Function.iterate_succ_apply]

/-- **What `RestoreDC` does**, by its argument. -/
theorem restoreState_spec (hdc : Sound dc) (n : ℤ) :
    (dc.stateStack = [] ∧ dc.restoreState n = (dc, false)) ∨
    dc.stateStack ≠ [] ∧
      ((dc.nSave < n ∧ dc.restoreState n = (dc, false)) ∨
      (n < 0 ∧ dc.restoreState n = (dc.popState, true)) ∨
      (n = 0 ∧ dc.restoreState n = (HDC.popState^[dc.stateStack.length] dc, false)) ∨
      ∃ k : ℕ, n = k ∧ 1 ≤ k ∧ k ≤ dc.stateStack.length ∧
        dc.restoreState n = (HDC.popState^[dc.stateStack.length + 1 - k] dc, true)) := by
  cases hcr : dc.cairo with
  | none =>
    refine .inl ⟨hdc.none hcr, ?_⟩
    simp only [HDC.restoreState, hcr]
  | some cr =>
    have hunfold : dc.restoreState n = if n > dc.nSave then (dc, false)
        else if n < 0 then
          match dc.stateStack with
          | [] => (dc, false)
          | _ :: _ => (dc.popState, true)
        else dc.unwind n dc.stateStack.length := by
      simp only [HDC.restoreState, hcr]
    rw [hunfold]
    have hsave := hdc.nSave
    by_cases hnil : dc.stateStack = []
    · refine .inl ⟨hnil, ?_⟩
      rw [hnil, List.length_nil] at hsave
      rcases Int.lt_trichotomy n 0 with hneg | rfl | hpos
      · rw [if_neg (by omega), if_pos hneg, hnil]
      · rw [if_neg (by omega), if_neg (by omega), hnil, List.length_nil,
          unwind_zero 0 hdc (by rw [hnil]; rfl)]
        rfl
      · rw [if_pos (by omega)]
    · refine .inr ⟨hnil, ?_⟩
      obtain ⟨state, stack, hstack⟩ := List.exists_cons_of_ne_nil hnil
      by_cases hgt : n > dc.nSave
      · exact .inl ⟨hgt, if_pos hgt⟩
      · rw [if_neg hgt]
        rcases Int.lt_trichotomy n 0 with hneg | rfl | hpos
        · refine .inr (.inl ⟨hneg, ?_⟩)
          rw [if_pos hneg, hstack]
        · refine .inr (.inr (.inl ⟨rfl, ?_⟩))
          rw [if_neg (by omega), unwind_zero _ hdc rfl]
        · obtain ⟨k, rfl⟩ := Int.eq_ofNat_of_zero_le hpos.le
          refine .inr (.inr (.inr ⟨k, rfl, by omega, by omega, ?_⟩))
          rw [if_neg (by omega), unwind_pos (by omega) _ hdc rfl]

theorem iterate_popState_length (dc : HDC M G) :
    (HDC.popState^[dc.stateStack.length] dc).stateStack = [] := by
  rw [← List.length_eq_zero_iff, length_iterate_popState, Nat.sub_self]

/-- **A good step keeps the stacks together.** -/
theorem Sound.step (hdc : Sound dc) {act : Act M G} (h : Orderly dc act) :
    Sound (step dc act) := by
  cases act with
  | change state f =>
    refine ⟨hdc.nSave, fun cr hcr => ?_, fun hnone => hdc.none (Option.map_eq_none_iff.1 hnone)⟩
    obtain ⟨cr', hcr', rfl⟩ := Option.map_eq_some_iff.1 hcr
    obtain ⟨hok, hlen⟩ := hdc.cairo cr' hcr'
    simp only [Cairo.change, hok, if_true]
    exact ⟨trivial, hlen⟩
  | selectBitmap h' surface =>
    simp only [Gdi.step, HDC.selectBitmap]
    split_ifs with hsame
    · exact hdc
    · have hnil := h.resolve_left hsame
      refine ⟨hdc.nSave, fun cr hcr => ?_, fun _ => hnil⟩
      obtain ⟨g, -, rfl⟩ := Option.map_eq_some_iff.1 hcr
      simp only [hnil]
      exact ⟨rfl, rfl⟩
  | saveDC =>
    cases hcr : dc.cairo with
    | none => simpa only [Gdi.step, HDC.saveState, hcr] using hdc
    | some cr =>
      obtain ⟨hok, hlen⟩ := hdc.cairo cr hcr
      simp only [Gdi.step, HDC.saveState, hcr]
      refine ⟨?_, fun cr' hcr' => ?_, nofun⟩
      · simp only [hdc.nSave, List.length_cons]
        rfl
      · obtain rfl := Option.some.inj hcr'
        simp only [Cairo.save, hok, if_true, List.length_cons, hlen]
        exact ⟨trivial, trivial⟩
  | restoreDC n =>
    simp only [Gdi.step]
    rcases restoreState_spec hdc n with ⟨-, heq⟩ | ⟨-, h⟩
    · rwa [heq]
    · rcases h with ⟨-, heq⟩ | ⟨-, heq⟩ | ⟨-, heq⟩ | ⟨k, -, -, -, heq⟩
      · rwa [heq]
      · rw [heq]
        exact hdc.popState
      · rw [heq]
        exact hdc.iterate_popState _
      · rw [heq]
        exact hdc.iterate_popState _

theorem refuses_of_orderly (hdc : Sound dc) {act : Act M G} (h : Orderly dc act) :
    Refuses dc act := by
  cases act with
  | restoreDC n =>
    rcases restoreState_spec hdc n with ⟨-, heq⟩ | ⟨hne, hspec⟩
    · exact .inr heq
    · obtain ⟨hzero, hneg⟩ := h.resolve_left hne
      rcases hspec with ⟨-, heq⟩ | ⟨hlt, -⟩ | ⟨rfl, -⟩ | ⟨k, rfl, hk, hle, -⟩
      · exact .inr heq
      · exact .inl (.inr ⟨by omega, hne⟩)
      · exact absurd rfl hzero
      · refine .inl (.inl ⟨by omega, ?_⟩)
        rw [hdc.nSave]
        exact_mod_cast hle
  | _ => trivial

/-- A step that refuses and leaves the stacks together is a good one. -/
theorem orderly_of_refuses (hdc : Sound dc) {act : Act M G} (h : Refuses dc act)
    (hdc' : Sound (step dc act)) : Orderly dc act := by
  cases act with
  | selectBitmap h' surface =>
    by_contra hbad
    obtain ⟨hne, hstack⟩ := not_or.1 hbad
    simp only [step, HDC.selectBitmap, if_neg hne] at hdc'
    cases surface with
    | none => exact hstack (hdc'.none rfl)
    | some g =>
      have hlen := (hdc'.cairo _ rfl).2
      exact hstack (List.length_eq_zero_iff.1 hlen.symm)
  | restoreDC n =>
    by_contra hbad
    obtain ⟨hne, harg⟩ := not_or.1 hbad
    have hname : ¬ Names dc n := by
      rintro (⟨hpos, -⟩ | ⟨rfl, -⟩)
      · exact harg ⟨by omega, by omega⟩
      · exact harg ⟨by omega, le_rfl⟩
    have heq := h.resolve_left hname
    rcases restoreState_spec hdc n with ⟨hnil, -⟩ | ⟨-, hspec⟩
    · exact hne hnil
    · rcases hspec with ⟨hgt, -⟩ | ⟨-, hpop⟩ | ⟨-, hall⟩ | ⟨k, rfl, hk, -⟩
      · exact harg ⟨by have := hdc.nSave; omega, by have := hdc.nSave; omega⟩
      · rw [hpop] at heq
        exact Bool.false_ne_true (congrArg Prod.snd heq).symm
      · rw [hall] at heq
        have hsame : HDC.popState^[dc.stateStack.length] dc = dc := congrArg Prod.fst heq
        have hnil := iterate_popState_length dc
        rw [hsame] at hnil
        exact hne hnil
      · exact harg ⟨by omega, by omega⟩
  | _ => trivial

/-- **The runs that are sound and refuse are the orderly ones.** -/
theorem sound_and_refuses_iff (hdc : Sound dc) (acts : List (Act M G)) :
    (lts M G).AllStates Sound dc acts ∧ (lts M G).AllSteps Refuses dc acts ↔
      (lts M G).AllSteps Orderly dc acts := by
  constructor
  · rintro ⟨hstates, hsteps⟩
    induction acts generalizing dc with
    | nil => trivial
    | cons act acts ih =>
      intro dc' hdc'
      obtain rfl : step dc act = dc' := Option.some.inj hdc'
      have hnext := hstates.2 _ rfl
      obtain ⟨href, hrest⟩ := hsteps _ rfl
      exact ⟨orderly_of_refuses hdc href hnext.head, ih hnext.head hnext hrest⟩
  · intro h
    have hgood : ∀ (dc : HDC M G) act dc', Sound dc → Orderly dc act →
        (lts M G).next dc act = some dc' → Sound dc' := by
      intro dc act dc' hs ho hn
      obtain rfl : Gdi.step dc act = dc' := Option.some.inj hn
      exact hs.step ho
    exact ⟨LTS.allStates_of_allSteps (fun _ hs => hs) hgood hdc h,
      LTS.AllSteps.imp_of_invariant (fun _ _ hs ho => refuses_of_orderly hs ho) hgood hdc h⟩

/-- The context `t` is `dc` with more levels. -/
def Above (dc t : HDC M G) : Prop :=
  dc.stateStack.length < t.stateStack.length ∧
    HDC.popState^[t.stateStack.length - dc.stateStack.length] t = dc

/-- Levels that are popped above another one leave what is below it. -/
theorem Above.iterate_popState (h : Above dc t) {n : ℕ}
    (hlt : dc.stateStack.length < (HDC.popState^[n] t).stateStack.length) :
    Above dc (HDC.popState^[n] t) := by
  refine ⟨hlt, ?_⟩
  rw [length_iterate_popState] at hlt ⊢
  obtain ⟨-, hpop⟩ := h
  rw [← Function.iterate_add_apply,
    show t.stateStack.length - n - dc.stateStack.length + n =
      t.stateStack.length - dc.stateStack.length by omega, hpop]

/-- **A step that does not undo the level leaves it as it is.** -/
theorem Above.step (h : Above dc t) (ht : Sound t) {act : Act M G} (hord : Orderly t act)
    (hlt : dc.stateStack.length < (step t act).stateStack.length) : Above dc (step t act) := by
  have hne : t.stateStack ≠ [] := by
    rintro hnil
    have := h.1
    rw [hnil] at this
    exact Nat.not_lt_zero _ this
  obtain ⟨m, hm⟩ : ∃ m, t.stateStack.length - dc.stateStack.length = m + 1 :=
    ⟨t.stateStack.length - dc.stateStack.length - 1, by have := h.1; omega⟩
  have hpop := h.2
  rw [hm, Function.iterate_succ_apply] at hpop
  cases act with
  | change state f =>
    refine ⟨hlt, ?_⟩
    rw [show (Gdi.step t (.change state f)).stateStack = t.stateStack from rfl, hm,
      Function.iterate_succ_apply, popState_change ht hne, hpop]
  | selectBitmap h' surface =>
    have hsame : Gdi.step t (.selectBitmap h' surface) = t := if_pos (hord.resolve_right hne)
    rwa [hsame]
  | saveDC =>
    have hc : t.cairo ≠ none := fun hnone => hne (ht.none hnone)
    obtain ⟨cr, hcr⟩ := Option.ne_none_iff_exists'.1 hc
    have hlen : (Gdi.step t .saveDC).stateStack.length = t.stateStack.length + 1 := by
      simp only [Gdi.step, HDC.saveState, hcr, List.length_cons]
    refine ⟨hlt, ?_⟩
    rw [hlen, show t.stateStack.length + 1 - dc.stateStack.length = m + 1 + 1 by omega,
      Function.iterate_succ_apply, show (Gdi.step t .saveDC).popState = t from
        popState_saveState ht hc, Function.iterate_succ_apply, hpop]
  | restoreDC n =>
    simp only [Gdi.step] at hlt ⊢
    rcases restoreState_spec ht n with ⟨-, heq⟩ | ⟨-, hspec⟩
    · rwa [heq]
    · rcases hspec with ⟨-, heq⟩ | ⟨-, heq⟩ | ⟨-, heq⟩ | ⟨k, -, -, -, heq⟩
      · rwa [heq]
      · rw [heq] at hlt ⊢
        exact h.iterate_popState (n := 1) hlt
      · rw [heq] at hlt ⊢
        exact h.iterate_popState hlt
      · rw [heq] at hlt ⊢
        exact h.iterate_popState hlt

theorem Above.run {acts : List (Act M G)} {u : HDC M G} (h : Above dc t) (ht : Sound t)
    (hord : (lts M G).AllSteps Orderly t acts)
    (hkept : (lts M G).AllStates (fun u => dc.nSave < u.nSave) t acts)
    (hdc : Sound dc) (hrun : (lts M G).run t acts = some u) : Above dc u ∧ Sound u := by
  induction acts generalizing t with
  | nil =>
    obtain rfl := Option.some.inj hrun
    exact ⟨h, ht⟩
  | cons act acts ih =>
    obtain ⟨ho, hrest⟩ := hord _ rfl
    have hnext := hkept.2 _ rfl
    have hs := ht.step ho
    have hlt := hnext.head
    rw [hdc.nSave, hs.nSave] at hlt
    exact ih (h.step ht ho (by exact_mod_cast hlt)) hs hrest hnext hrun

/-- **A level that is not undone is restored to the very context that was saved**, by its number,
and by `-1` where it is the last one. -/
theorem restoreState_save (hdc : Sound dc) (hc : dc.cairo ≠ none) {acts : List (Act M G)}
    (hord : (lts M G).AllSteps Orderly dc.saveState.1 acts)
    (hkept : (lts M G).AllStates (fun u => dc.saveState.2 ≤ u.nSave) dc.saveState.1 acts)
    (hrun : (lts M G).run dc.saveState.1 acts = some t) :
    t.restoreState dc.saveState.2 = (dc, true) ∧
      (t.nSave = dc.saveState.2 → t.restoreState (-1) = (dc, true)) := by
  obtain ⟨cr, hcr⟩ := Option.ne_none_iff_exists'.1 hc
  have hret : dc.saveState.2 = dc.nSave + 1 := by simp only [HDC.saveState, hcr]
  have hlen : dc.saveState.1.stateStack.length = dc.stateStack.length + 1 := by
    simp only [HDC.saveState, hcr, List.length_cons]
  have hord' : Orderly dc .saveDC := trivial
  have hsave : Sound dc.saveState.1 := hdc.step hord'
  have habove : Above dc dc.saveState.1 := by
    refine ⟨by omega, ?_⟩
    rw [hlen, Nat.add_sub_cancel_left]
    exact popState_saveState hdc hc
  rw [hret] at hkept ⊢
  obtain ⟨⟨hlt, hpop⟩, ht⟩ := habove.run hsave hord hkept hdc hrun
  have hne : t.stateStack ≠ [] := by
    rintro hnil
    rw [hnil] at hlt
    exact Nat.not_lt_zero _ hlt
  have hdcSave := hdc.nSave
  have htSave := ht.nSave
  constructor
  · rcases restoreState_spec ht (dc.nSave + 1) with ⟨hnil, -⟩ | ⟨-, hspec⟩
    · exact absurd hnil hne
    · rcases hspec with ⟨hgt, -⟩ | ⟨hneg, -⟩ | ⟨hzero, -⟩ | ⟨k, hk, -, -, heq⟩
      · omega
      · omega
      · omega
      · rw [heq, show t.stateStack.length + 1 - k =
          t.stateStack.length - dc.stateStack.length by omega, hpop]
  · intro hlast
    rcases restoreState_spec ht (-1) with ⟨hnil, -⟩ | ⟨-, hspec⟩
    · exact absurd hnil hne
    · rcases hspec with ⟨hgt, -⟩ | ⟨-, heq⟩ | ⟨hzero, -⟩ | ⟨k, hk, -⟩
      · omega
      · have hone : t.stateStack.length - dc.stateStack.length = 1 := by omega
        rw [hone] at hpop
        rw [heq]
        exact congrArg (·, true) hpop
      · omega
      · omega

end

theorem sound_create (bmp : ℕ) (surface : Option G) (state : DCState M) :
    Sound (HDC.create bmp surface state) where
  nSave := rfl
  cairo cr hcr := by
    obtain ⟨g, -, rfl⟩ := Option.map_eq_some_iff.1 hcr
    exact ⟨rfl, rfl⟩
  none _ := rfl

/-- **`SaveDC` and `RestoreDC` are a stack in the orderly runs**, and only there: the numbers of
saved states agree and an argument that names no level is refused, and in an orderly run a level
that is not undone is restored to the context that was saved. -/
theorem saveDC_stack (bmp : ℕ) (surface : Option G) (state : DCState M) :
    (∀ acts, (lts M G).AllStates Sound (HDC.create bmp surface state) acts ∧
        (lts M G).AllSteps Refuses (HDC.create bmp surface state) acts ↔
      (lts M G).AllSteps Orderly (HDC.create bmp surface state) acts) ∧
    ∀ pre mid dc t, (lts M G).AllSteps Orderly (HDC.create bmp surface state)
        (pre ++ .saveDC :: mid) →
      (lts M G).run (HDC.create bmp surface state) pre = some dc → dc.cairo ≠ none →
      (lts M G).AllStates (fun u => dc.saveState.2 ≤ u.nSave) dc.saveState.1 mid →
      (lts M G).run dc.saveState.1 mid = some t →
        dc.saveState.2 = dc.nSave + 1 ∧ t.restoreState dc.saveState.2 = (dc, true) ∧
          (t.nSave = dc.saveState.2 → t.restoreState (-1) = (dc, true)) := by
  have hcreate := sound_create bmp surface state
  refine ⟨sound_and_refuses_iff hcreate, fun pre mid dc t hord hrun hc hkept hmid => ?_⟩
  have hdc : Sound dc := by
    refine LTS.run_invariant (A := lts M G) (I := Sound) (G := Orderly) ?_ hcreate
      hord.of_append hrun
    intro dc act dc' hs ho hn
    obtain rfl : step dc act = dc' := Option.some.inj hn
    exact hs.step ho
  obtain ⟨cr, hcr⟩ := Option.ne_none_iff_exists'.1 hc
  have hrest := hord.of_append_right hrun
  exact ⟨by simp only [HDC.saveState, hcr], restoreState_save hdc hc (hrest _ rfl).2 hkept hmid⟩

/-- Attributes with the matrix `0`. -/
def plain : DCState ℕ := ⟨1, 2, 3, 0, (0, 0), 0, 0, 2, 0, 16, 1, 1, (0, 0)⟩

instance decidableOrderly (dc : HDC M G) : ∀ act, Decidable (Orderly dc act)
  | .change _ _ | .saveDC => .isTrue trivial
  | .selectBitmap h _ => inferInstanceAs (Decidable (h = dc.bmp ∨ dc.stateStack = []))
  | .restoreDC n => inferInstanceAs (Decidable (dc.stateStack = [] ∨ n ≠ 0 ∧ -1 ≤ n))

def coloured : DCState ℕ := { plain with
  pen := 7
  crText := 255
  mtx := 3 }

/-- Between a `SaveDC` and its `RestoreDC` another state is saved and restored. -/
def sampleActs : List (Act ℕ ℕ) :=
  [.change coloured (· + 1), .saveDC, .change plain (· * 2), .restoreDC (-1), .restoreDC 7]

theorem saveDC_stack_sample : ∃ t : HDC ℕ ℕ,
    (lts ℕ ℕ).run (HDC.create 1 (some 5) plain).saveState.1 sampleActs = some t ∧
      t.cairo = some ⟨6, [5], true⟩ ∧ t.pen = 7 ∧
      t.restoreState 1 = (HDC.create 1 (some 5) plain, true) ∧
      t.restoreState (-1) = (HDC.create 1 (some 5) plain, true) := by
  have hord : (lts ℕ ℕ).AllSteps Orderly (HDC.create 1 (some 5) plain)
      (.saveDC :: sampleActs) := by
    decide
  have hkept : (lts ℕ ℕ).AllStates (fun u => 1 ≤ u.nSave)
      (HDC.create 1 (some 5) plain).saveState.1 sampleActs := by
    iterate 5
      refine ⟨by decide, fun _ h => ?_⟩
      cases h
    show (1 : ℤ) ≤ HDC.nSave _
    decide
  obtain ⟨-, hlevel, hlast⟩ := (saveDC_stack 1 (some 5) plain).2 [] sampleActs _ _ hord rfl nofun
    hkept rfl
  exact ⟨_, rfl, rfl, rfl, hlevel, hlast rfl⟩

/-- A context with one saved state: `RestoreDC(0)` pops it and returns `FALSE`, `RestoreDC(-3)` pops
it and returns `TRUE`, and after another bitmap is selected `RestoreDC(1)` leaves the graphics state
of the new context, with an error. -/
theorem restore_not_refused :
    ∃ dc : HDC ℕ ℕ, dc = (HDC.create 1 (some 5) plain).saveState.1 ∧ dc.nSave = 1 ∧
      (dc.restoreState 0).2 = false ∧ (dc.restoreState 0).1.nSave = 0 ∧
      ¬ Refuses dc (.restoreDC 0) ∧
      (dc.restoreState (-3)).2 = true ∧ ¬ Refuses dc (.restoreDC (-3)) ∧
      ((dc.selectBitmap 2 (some 7)).restoreState 1).1.cairo = some ⟨7, [], false⟩ := by
  refine ⟨_, rfl, rfl, rfl, rfl, ?_, rfl, ?_, rfl⟩
  · rintro ((⟨h, -⟩ | ⟨h, -⟩) | h)
    · exact absurd h (by decide)
    · exact absurd h (by decide)
    · exact absurd (congrArg (fun r => r.1.nSave) h) (by decide)
  · rintro ((⟨h, -⟩ | ⟨h, -⟩) | h)
    · exact absurd h (by decide)
    · exact absurd h (by decide)
    · exact absurd (congrArg Prod.snd h) (by decide)

end Gdi

end Swinx
