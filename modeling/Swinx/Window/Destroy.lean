import Mathlib
import Swinx.LTS.Basic

/-!
# Destroying a tree of windows

`DestroyWindow` sends `WM_DESTROY`.  After a `WH_CALLWNDPROC` hook, which may skip it, and its
handler `CallWindowProcPriv` destroys the popups owned by the window, then asks for the last child
and destroys it until there is none, calls the handler of `WM_NCDESTROY`, and sets `bDestroyed`.
The window is freed, and leaves the X tree, with the last message of it on the stack that is
counted in `msgRecusiveCount`; the handlers that `CallWindowProcPriv` calls before it raises this
are not.

The model runs one UI thread: a stack of handlers and of unfinished destructions.  Handlers and
hooks are arbitrary; whatever they do next (send a message, destroy a window, return) is a step.

* `proper_iff` — the destruction of a tree is proper in every state of a run exactly if each
  `DestroyWindow` reaches a window at the right time.
-/

namespace Swinx

namespace Destroy

/-- The most `SendMessage` calls that may be nested. -/
def kMaxSendMsgStack : ℕ := 20

/-- The windows of the thread and their links. -/
structure Forest where
  /-- In stacking order, bottom first. -/
  order : List ℕ
  parent : ℕ → ℕ
  /-- `WS_CHILD`; the other windows are children of the X root. -/
  isChild : ℕ → Bool

/-- The messages of a destruction. -/
inductive Kind
  | destroy
  | ncdestroy
  deriving DecidableEq, Repr

/-- What the thread is in the middle of. -/
inductive Frame
  /-- A handler that the `switch` of `CallWindowProcPriv` calls for another message, as that of
  `WM_ERASEBKGND` or `WM_NCHITTEST`; does the message go on after the `switch`? -/
  | inner (hWnd : ℕ) (sent goesOn : Bool)
  /-- The hook and the handler of another message. -/
  | other (hWnd : ℕ) (sent : Bool)
  /-- The hook of `WM_DESTROY`. -/
  | hook (hWnd : ℕ)
  /-- The handler of `WM_DESTROY`. -/
  | destroy (hWnd : ℕ)
  /-- `EnumWindows(Enum4DestroyOwned)`, with the windows still to come. -/
  | owned (hWnd : ℕ) (rest : List ℕ)
  /-- The loop over the children. -/
  | children (hWnd : ℕ)
  /-- The handler of `WM_NCDESTROY`. -/
  | ncdestroy (hWnd : ℕ)
  deriving DecidableEq, Repr

namespace Frame

/-- The window whose message is handled. -/
def hWnd : Frame → ℕ
  | inner h _ _ | other h _ | hook h | destroy h | owned h _ | children h | ncdestroy h => h

/-- The frame counts in `msgRecusiveCount` of `h`. -/
def counts (h : ℕ) : Frame → Bool
  | inner _ _ _ => false
  | f => f.hWnd = h

/-- The frame is the destruction of `h`. -/
def destroys (h : ℕ) : Frame → Bool
  | inner _ _ _ | other _ _ => false
  | hook a | destroy a | owned a _ | children a | ncdestroy a => a = h

/-- The frame is the destruction of `h` after its hook. -/
def given (h : ℕ) : Frame → Bool
  | hook _ => false
  | f => f.destroys h

/-- The frame counts in `s_nCallStack`. -/
def sent : Frame → Bool
  | inner _ sent _ | other _ sent => sent
  | _ => true

theorem destroys_of_given {h : ℕ} {f : Frame} (hf : f.given h = true) : f.destroys h = true := by
  cases f with
  | hook a => cases hf
  | _ => exact hf

/-- User code is running. -/
def isHandler : Frame → Bool
  | inner _ _ _ | other _ _ | hook _ | destroy _ | ncdestroy _ => true
  | _ => false

end Frame

/-- The thread. -/
structure State where
  /-- The registered windows; the same windows are in the X tree. -/
  registered : Finset ℕ
  /-- The windows whose `bDestroyed` has been set. -/
  bDestroyed : Finset ℕ
  msgRecusiveCount : ℕ → ℕ
  /-- The innermost frame first. -/
  frames : List Frame
  /-- The handlers that have been called. -/
  log : List (ℕ × Kind)
  /-- The windows for which a `DestroyWindow` call has returned that did not find them destroyed or
  in their destruction. -/
  returned : List ℕ
  /-- How many rounds the loop over the children has made without any effect. -/
  spins : ℕ
  /-- How many steps the thread has made by itself. -/
  steps : ℕ

/-- The steps of the thread. -/
inductive Act
  /-- A handler sends or dispatches another message. -/
  | message (hWnd : ℕ) (sent : Bool)
  /-- The same, for a message with a handler inside the `switch`. -/
  | innerMessage (hWnd : ℕ) (sent goesOn : Bool)
  | destroyWindow (hWnd : ℕ)
  /-- The hook of `WM_DESTROY` returns; is the handler skipped? -/
  | hookDone (bSkipMsg : Bool)
  /-- The handler returns. -/
  | ret
  /-- The next round of a loop. -/
  | step
  deriving DecidableEq, Repr

namespace State

/-- `s_nCallStack` -/
def nCallStack (s : State) : ℕ := s.frames.countP Frame.sent

/-- `SendMessage` returns at once. -/
def Refuses (s : State) : Prop := kMaxSendMsgStack ≤ s.nCallStack

/-- The window is there and not destroyed. -/
def Live (s : State) (h : ℕ) : Prop := h ∈ s.registered ∧ h ∉ s.bDestroyed

/-- The window is in its destruction. -/
def InProgress (s : State) (h : ℕ) : Prop := 0 < s.frames.countP (Frame.destroys h)

instance decidableRefuses (s : State) : Decidable s.Refuses :=
  inferInstanceAs (Decidable (_ ≤ _))

instance decidableLive (s : State) (h : ℕ) : Decidable (s.Live h) :=
  inferInstanceAs (Decidable (_ ∧ _))

instance decidableInProgress (s : State) (h : ℕ) : Decidable (s.InProgress h) :=
  inferInstanceAs (Decidable (_ < _))

/-- `CallWindowProcPriv` gets past its `switch`: the hook is called, and the handler. -/
def enter (s : State) (f : Frame) : State :=
  { s with
    msgRecusiveCount :=
      Function.update s.msgRecusiveCount f.hWnd (s.msgRecusiveCount f.hWnd + 1)
    frames := f :: s.frames }

/-- `CallWindowProcPriv` ends: a destroyed window is freed with its last message. -/
def leave (s : State) (h : ℕ) : State :=
  let n := s.msgRecusiveCount h - 1
  { s with
    msgRecusiveCount := Function.update s.msgRecusiveCount h n
    registered := if n = 0 ∧ h ∈ s.bDestroyed then s.registered.erase h else s.registered }

/-- `DestroyWindow` -/
def destroyWindow (s : State) (h : ℕ) : State :=
  if s.Live h then
    if s.Refuses then
      if s.InProgress h then s else { s with returned := h :: s.returned }
    else s.enter (.hook h)
  else s

/-- The end of a destruction, after `WM_NCDESTROY`. -/
def finish (s : State) (h : ℕ) : State :=
  { s with bDestroyed := insert h s.bDestroyed, returned := h :: s.returned }.leave h

/-- `GetWindow(GW_CHILDLAST)` -/
def childLast (F : Forest) (s : State) (h : ℕ) : Option ℕ :=
  (F.order.filter fun c => F.isChild c = true ∧ F.parent c = h ∧ c ∈ s.registered).getLast?

/-- The children of the X root. -/
def toplevel (F : Forest) (s : State) : List ℕ :=
  F.order.filter fun c => F.isChild c = false ∧ c ∈ s.registered

/-- User code may act. -/
def atHandler (s : State) : Bool :=
  match s.frames with
  | [] => true
  | f :: _ => f.isHandler

/-- A round of the loop over the children that finds the child `c`. -/
def childRound (s : State) (c : ℕ) : State :=
  { s with spins := if s.Live c ∧ ¬ s.Refuses then s.spins else s.spins + 1 }.destroyWindow c

end State

/-- All windows are registered, and no handler is running. -/
def init (F : Forest) : State := ⟨F.order.toFinset, ∅, fun _ => 0, [], [], [], 0, 0⟩

/-- One step. -/
def next (F : Forest) (s : State) : Act → Option State
  | .message h sent =>
    if s.atHandler = true ∧ h ∈ s.registered ∧ (sent = true → ¬ s.Refuses) then
      some (s.enter (.other h sent))
    else none
  | .innerMessage h sent goesOn =>
    if s.atHandler = true ∧ h ∈ s.registered ∧ (sent = true → ¬ s.Refuses) then
      some { s with frames := .inner h sent goesOn :: s.frames }
    else none
  | .destroyWindow h => if s.atHandler then some (s.destroyWindow h) else none
  | .hookDone bSkipMsg =>
    match s.frames with
    | .hook h :: frames =>
      -- nor does `CallWindowObjProc` call the handler of a destroyed window
      if bSkipMsg = true ∨ h ∈ s.bDestroyed then
        some { s with frames := .owned h (s.toplevel F) :: frames }
      else some { s with frames := .destroy h :: frames, log := (h, .destroy) :: s.log }
    | _ => none
  | .ret =>
    match s.frames with
    | .inner h sent goesOn :: frames =>
      some (if goesOn then { s with frames }.enter (.other h sent) else { s with frames })
    | .other h _ :: frames => some ({ s with frames }.leave h)
    | .destroy h :: frames =>
      some { s with frames := .owned h (s.toplevel F) :: frames }
    | .ncdestroy h :: frames => some ({ s with frames }.finish h)
    | _ => none
  | .step =>
    match s.frames with
    | .owned h (x :: rest) :: frames =>
      let s := { s with frames := .owned h rest :: frames, steps := s.steps + 1 }
      if x ∈ s.registered ∧ F.parent x = h then some (s.destroyWindow x) else some s
    | .owned h [] :: frames =>
      some { s with frames := .children h :: frames, steps := s.steps + 1 }
    | .children h :: frames =>
      let s := { s with steps := s.steps + 1 }
      match s.childLast F h with
      | some c => some (s.childRound c)
      | none =>
        -- `CallWindowObjProc` does not call the handler of a destroyed window
        if h ∈ s.bDestroyed then some ({ s with frames }.finish h)
        else some { s with frames := .ncdestroy h :: frames, log := (h, .ncdestroy) :: s.log }
    | _ => none

/-- The thread as a transition system. -/
def lts (F : Forest) : LTS State Act := ⟨next F⟩

/-- `d` is `h` or a descendant of it. -/
def Forest.Below (F : Forest) : ℕ → ℕ → Prop :=
  Relation.ReflTransGen fun d h => d ∈ F.order ∧ F.isChild d = true ∧ F.parent d = h

/-- The most steps the destruction of all windows takes. -/
def Forest.bound (F : Forest) : ℕ := F.order.length * (F.order.length + 4)

/-- **A proper destruction**: no window is destroyed twice, and no handler is given a message twice;
a destruction gives its window `WM_DESTROY`; when a call has returned, all descendants of its
window have been given both, and when no handler is left they are not registered; and the loops
come to an end. -/
structure Proper (F : Forest) (s : State) : Prop where
  begun : ∀ h, (if h ∈ s.bDestroyed then 1 else 0) + s.frames.countP (Frame.destroys h) ≤ 1
  once : ∀ h k, s.log.count (h, k) ≤ 1
  given : ∀ h, 0 < s.frames.countP (Frame.given h) → 0 < s.log.count (h, .destroy)
  complete : ∀ h ∈ s.returned, ∀ d, F.Below d h → ∀ k, s.log.count (d, k) = 1
  freed : s.frames = [] → ∀ h ∈ s.returned, ∀ d, F.Below d h → d ∉ s.registered
  noSpin : s.spins = 0
  bounded : s.steps ≤ F.bound

/-- A `DestroyWindow` call finds its window live only at the right time: outside the destruction of
the window it is not refused, inside it is. -/
def State.InTime (s : State) (h : ℕ) : Prop := s.Live h → (s.InProgress h ↔ s.Refuses)

/-- **Destroying in time**: each call of `DestroyWindow`, by a handler or for an owned popup, is in
time, the last child that the loop asks for can be destroyed, and no hook skips a `WM_DESTROY`. -/
def DestroysInTime (F : Forest) (s : State) : Act → Prop
  | .destroyWindow h => s.InTime h
  | .hookDone bSkipMsg => bSkipMsg = false
  | .step =>
    match s.frames with
    | .owned h (x :: _) :: _ => F.parent x = h → s.InTime x
    | .children h :: _ => ∀ c ∈ s.childLast F h, s.Live c ∧ ¬ s.InProgress c ∧ ¬ s.Refuses
    | _ => True
  | _ => True

/-- How many steps a frame still takes at most, besides the destructions it starts; `n` is the
number of windows. -/
def Frame.weight (n : ℕ) : Frame → ℕ
  | .hook _ | .destroy _ => n + 3
  | .owned _ rest => rest.length + 2
  | .children _ => 1
  | _ => 0

namespace State

/-- The destruction of the window has not begun. -/
def unstarted (s : State) (h : ℕ) : Bool :=
  h ∉ s.bDestroyed && s.frames.countP (Frame.destroys h) = 0

/-- How many steps the thread still takes at most by itself. -/
def potential (F : Forest) (s : State) : ℕ :=
  F.order.countP s.unstarted * (F.order.length + 4) +
    (s.frames.map (Frame.weight F.order.length)).sum

end State

/-- What is known in every run that destroys in time. -/
structure Inv (F : Forest) (s : State) : Prop where
  count : ∀ h, s.msgRecusiveCount h = s.frames.countP (Frame.counts h)
  registered : ∀ h ∈ s.registered,
    h ∈ F.order ∧ (h ∈ s.bDestroyed → 0 < s.msgRecusiveCount h)
  /-- A window that is not destroyed is not freed. -/
  live : ∀ h ∈ F.order, h ∉ s.bDestroyed → h ∈ s.registered
  destroyLog : ∀ h, s.log.count (h, .destroy) =
    (if h ∈ s.bDestroyed then 1 else 0) + s.frames.countP (Frame.given h)
  ncdestroyLog : ∀ h, s.log.count (h, .ncdestroy) =
    (if h ∈ s.bDestroyed then 1 else 0) + s.frames.count (.ncdestroy h)
  /-- A destruction happens once. -/
  once : ∀ h, (if h ∈ s.bDestroyed then 1 else 0) + s.frames.countP (Frame.destroys h) ≤ 1
  /-- A window outlives its children. -/
  closed : ∀ h, h ∈ s.bDestroyed ∨ .ncdestroy h ∈ s.frames →
    ∀ c ∈ F.order, F.isChild c = true → F.parent c = h → c ∈ s.bDestroyed
  returned : ∀ h ∈ s.returned, h ∈ s.bDestroyed
  noSpin : s.spins = 0
  potential : s.steps + s.potential F ≤ F.bound

theorem inv_init (F : Forest) : Inv F (init F) := by
  refine ⟨by simp [init], by simp [init], by simp [init], by simp [init], by simp [init],
    by simp [init], by simp [init], by simp [init], rfl, ?_⟩
  have hle := List.countP_le_length (p := (init F).unstarted) (l := F.order)
  have hpotential : (init F).steps + (init F).potential F =
      F.order.countP (init F).unstarted * (F.order.length + 4) := Nat.zero_add _
  rw [hpotential]
  exact Nat.mul_le_mul_right _ hle

theorem count_ncdestroy_le (frames : List Frame) (h : ℕ) :
    frames.count (.ncdestroy h) ≤ frames.countP (Frame.given h) := by
  refine List.countP_mono_left fun f _ hf => ?_
  obtain rfl := eq_of_beq hf
  simp [Frame.given, Frame.destroys]

theorem countP_given_le (frames : List Frame) (h : ℕ) :
    frames.countP (Frame.given h) ≤ frames.countP (Frame.destroys h) :=
  List.countP_mono_left fun _ _ => Frame.destroys_of_given

theorem countP_succ_le {p q : ℕ → Bool} {l : List ℕ} {a : ℕ} (hqp : ∀ x, q x = true → p x = true)
    (ha : a ∈ l) (hp : p a = true) (hq : q a ≠ true) : l.countP q + 1 ≤ l.countP p := by
  induction l with
  | nil => cases ha
  | cons x l ih =>
    have hmono : l.countP q ≤ l.countP p := List.countP_mono_left fun y _ => hqp y
    rw [List.countP_cons, List.countP_cons]
    rcases List.mem_cons.1 ha with rfl | ha
    · rw [if_pos hp, if_neg hq]
      omega
    · have := ih ha
      by_cases hx : q x = true
      · rw [if_pos hx, if_pos (hqp x hx)]
        omega
      · rw [if_neg hx]
        omega

theorem childRound_eq {s : State} {c : ℕ} (hl : s.Live c) (hr : ¬ s.Refuses) :
    s.childRound c = s.enter (.hook c) := by
  rw [State.childRound, if_pos ⟨hl, hr⟩]
  change s.destroyWindow c = _
  rw [State.destroyWindow, if_pos hl, if_neg hr]

namespace Inv

variable {F : Forest} {s : State} {h : ℕ}

theorem mem_of_below (hI : Inv F s) {d : ℕ} (hb : F.Below d h) (hh : h ∈ s.bDestroyed) :
    d ∈ s.bDestroyed := by
  induction hb using Relation.ReflTransGen.head_induction_on with
  | refl => exact hh
  | head hstep _ ih => exact hI.closed _ (.inl ih) _ hstep.1 hstep.2.1 hstep.2.2

/-- No handler is given a message twice; a destroyed window has been given both. -/
theorem log_count (hI : Inv F s) (h : ℕ) (k : Kind) :
    s.log.count (h, k) ≤ 1 ∧ (h ∈ s.bDestroyed → s.log.count (h, k) = 1) := by
  have h1 := hI.once h
  have h2 := hI.destroyLog h
  have h3 := hI.ncdestroyLog h
  have h4 := count_ncdestroy_le s.frames h
  have h5 := countP_given_le s.frames h
  cases k <;> by_cases hd : h ∈ s.bDestroyed <;> simp only [hd, if_true, if_false] at h1 h2 h3
  all_goals
    refine ⟨by omega, fun _ => ?_⟩
    first | omega | contradiction

theorem proper (hI : Inv F s) : Proper F s where
  begun := hI.once
  once h k := (hI.log_count h k).1
  given h hpos := by
    rw [hI.destroyLog]
    omega
  complete h hh d hb k := (hI.log_count d k).2 (hI.mem_of_below hb (hI.returned h hh))
  freed hf h hh d hb hd := by
    have hpos := (hI.registered d hd).2 (hI.mem_of_below hb (hI.returned h hh))
    rw [hI.count, hf] at hpos
    simp at hpos
  noSpin := hI.noSpin
  bounded := (Nat.le_add_right _ _).trans hI.potential

theorem replace (hI : Inv F s) {f : Frame} {frames : List Frame} (hf : s.frames = f :: frames)
    (f' : Frame) (steps : ℕ) (hw : ∀ h, f'.counts h = f.counts h)
    (hd : ∀ h, f'.destroys h = f.destroys h) (hg : ∀ h, f'.given h = f.given h)
    (hn : ∀ h, f ≠ .ncdestroy h) (hn' : ∀ h, f' ≠ .ncdestroy h)
    (hs : steps + f'.weight F.order.length ≤ s.steps + f.weight F.order.length) :
    Inv F { s with frames := f' :: frames, steps } := by
  have hcount (h : ℕ) : (f' :: frames).countP (Frame.destroys h) =
      s.frames.countP (Frame.destroys h) := by
    rw [hf, List.countP_cons, List.countP_cons, hd]
  have hgiven (h : ℕ) : (f' :: frames).countP (Frame.given h) =
      s.frames.countP (Frame.given h) := by
    rw [hf, List.countP_cons, List.countP_cons, hg]
  have hnc (h : ℕ) : (f' :: frames).count (.ncdestroy h) = s.frames.count (.ncdestroy h) := by
    rw [hf, List.count_cons_of_ne (hn' h), List.count_cons_of_ne (hn h)]
  have hmem (h : ℕ) : .ncdestroy h ∈ f' :: frames → .ncdestroy h ∈ s.frames := by
    rw [← List.count_pos_iff, ← List.count_pos_iff, hnc]
    exact id
  refine ⟨fun h => ?_, hI.registered, hI.live, fun h => ?_, fun h => ?_, fun h => ?_,
    fun h hh => ?_, hI.returned, hI.noSpin, ?_⟩
  · rw [hI.count, hf, List.countP_cons, List.countP_cons, hw]
  · rw [hgiven]
    exact hI.destroyLog h
  · rw [hnc]
    exact hI.ncdestroyLog h
  · rw [hcount]
    exact hI.once h
  · exact hI.closed h (hh.imp_right (hmem h))
  · have hp := hI.potential
    have hu : State.unstarted { s with frames := f' :: frames, steps } = s.unstarted := by
      funext h
      simp only [State.unstarted, hcount]
    simp only [State.potential, hu, hf, List.map_cons, List.sum_cons] at hp ⊢
    omega

theorem count_enter (hI : Inv F s) {f : Frame} (hf : ∀ a, f.counts a = decide (f.hWnd = a))
    (a : ℕ) : (s.enter f).msgRecusiveCount a = (s.enter f).frames.countP (Frame.counts a) := by
  simp only [State.enter, List.countP_cons, Function.update_apply, ← hI.count, hf,
    decide_eq_true_eq]
  split_ifs with h1 h2 h2
  · rw [h1]
  · exact absurd h1.symm h2
  · exact absurd h2.symm h1
  · rfl

theorem registered_enter (hI : Inv F s) (f : Frame) :
    ∀ a ∈ (s.enter f).registered,
      a ∈ F.order ∧ (a ∈ s.bDestroyed → 0 < (s.enter f).msgRecusiveCount a) := by
  intro a ha
  refine ⟨(hI.registered a ha).1, fun hd => ?_⟩
  have hpos := (hI.registered a ha).2 hd
  simp only [State.enter, Function.update_apply]
  split_ifs <;> omega

/-- A frame that destroys nothing. -/
theorem push (hI : Inv F s) {f : Frame} (hd : ∀ a, f.destroys a = false)
    (hn : ∀ a, f ≠ .ncdestroy a) (hw : f.weight F.order.length = 0) {count : ℕ → ℕ}
    (hcount : ∀ a, count a = (f :: s.frames).countP (Frame.counts a)) :
    Inv F { s with frames := f :: s.frames, msgRecusiveCount := count } := by
  have hdestroys (a : ℕ) : (f :: s.frames).countP (Frame.destroys a) =
      s.frames.countP (Frame.destroys a) := List.countP_cons_of_neg (by simp [hd])
  have hgiven (a : ℕ) : (f :: s.frames).countP (Frame.given a) =
      s.frames.countP (Frame.given a) := by
    exact List.countP_cons_of_neg fun h => by simpa [hd] using Frame.destroys_of_given h
  have hnc (a : ℕ) : (f :: s.frames).count (.ncdestroy a) = s.frames.count (.ncdestroy a) :=
    List.count_cons_of_ne (hn a)
  refine ⟨hcount, fun a ha => ⟨(hI.registered a ha).1, fun hda => ?_⟩, hI.live, fun a => ?_,
    fun a => ?_, fun a => ?_, fun a ha => ?_, hI.returned, hI.noSpin, ?_⟩
  · have hpos := (hI.registered a ha).2 hda
    rw [hI.count] at hpos
    show 0 < count a
    rw [hcount, List.countP_cons]
    omega
  · rw [hgiven]
    exact hI.destroyLog a
  · rw [hnc]
    exact hI.ncdestroyLog a
  · rw [hdestroys]
    exact hI.once a
  · refine hI.closed a (ha.imp_right fun hm => ?_)
    rwa [← List.count_pos_iff, hnc, List.count_pos_iff] at hm
  · have hp := hI.potential
    have hu : State.unstarted { s with frames := f :: s.frames, msgRecusiveCount := count } =
        s.unstarted := by
      funext a
      simp only [State.unstarted, hdestroys]
    simp only [State.potential, hu, List.map_cons, List.sum_cons, hw] at hp ⊢
    omega

theorem other (hI : Inv F s) (h : ℕ) (sent : Bool) : Inv F (s.enter (.other h sent)) :=
  hI.push (fun _ => rfl) (by simp) rfl (hI.count_enter fun _ => rfl)

theorem inner (hI : Inv F s) (h : ℕ) (sent goesOn : Bool) :
    Inv F { s with frames := .inner h sent goesOn :: s.frames } := by
  refine hI.push (fun _ => rfl) (by simp) rfl fun a => ?_
  rw [hI.count, List.countP_cons_of_neg (by simp [Frame.counts])]

/-- A destruction begins; it is worth one step more than it takes. -/
theorem start (hI : Inv F s) (hl : s.Live h) (hp : ¬ s.InProgress h) {steps : ℕ}
    (hs : steps ≤ s.steps + 1) : Inv F { s.enter (.hook h) with steps } := by
  have hzero : s.frames.countP (Frame.destroys h) = 0 := Nat.eq_zero_of_not_pos hp
  have hdestroys (a : ℕ) : (Frame.hook h :: s.frames).countP (Frame.destroys a) =
      s.frames.countP (Frame.destroys a) + if h = a then 1 else 0 := by
    simp [List.countP_cons, Frame.destroys]
  have hgiven (a : ℕ) : (s.enter (.hook h)).frames.countP (Frame.given a) =
      s.frames.countP (Frame.given a) := List.countP_cons_of_neg (by simp [Frame.given])
  have hnc (a : ℕ) : (s.enter (.hook h)).frames.count (.ncdestroy a) =
      s.frames.count (.ncdestroy a) := List.count_cons_of_ne (by simp)
  refine ⟨hI.count_enter fun _ => rfl, hI.registered_enter _, hI.live, fun a => ?_, fun a => ?_,
    fun a => ?_, fun a ha => ?_, hI.returned, hI.noSpin, ?_⟩
  · rw [hgiven]
    exact hI.destroyLog a
  · rw [hnc]
    exact hI.ncdestroyLog a
  · change (if a ∈ s.bDestroyed then 1 else 0) +
      (Frame.hook h :: s.frames).countP (Frame.destroys a) ≤ 1
    rw [hdestroys]
    rcases eq_or_ne h a with rfl | ha
    · rw [hzero, if_neg hl.2, if_pos rfl]
    · rw [if_neg ha]
      exact hI.once a
  · refine hI.closed a (ha.imp_right fun hm => ?_)
    rw [← List.count_pos_iff] at hm ⊢
    exact hnc a ▸ hm
  · have hpot := hI.potential
    have hlt : F.order.countP (s.enter (.hook h)).unstarted + 1 ≤
        F.order.countP s.unstarted := by
      refine countP_succ_le (fun a ha => ?_) (hI.registered h hl.1).1 ?_ ?_
      · simp only [State.unstarted, State.enter, hdestroys, Bool.and_eq_true, decide_eq_true_eq,
          Nat.add_eq_zero_iff] at ha
        simpa [State.unstarted, ha.2.1] using of_decide_eq_true ha.1
      · simpa [State.unstarted, hzero] using hl.2
      · simp [State.unstarted, State.enter, hdestroys]
    have hmul := Nat.mul_le_mul_right (F.order.length + 4) hlt
    rw [Nat.add_mul, Nat.one_mul] at hmul
    have hsum : ((s.enter (.hook h)).frames.map (Frame.weight F.order.length)).sum =
        F.order.length + 3 + (s.frames.map (Frame.weight F.order.length)).sum := by
      simp [State.enter, Frame.weight]
    change steps + (F.order.countP (s.enter (.hook h)).unstarted * (F.order.length + 4) +
      ((s.enter (.hook h)).frames.map (Frame.weight F.order.length)).sum) ≤ F.bound
    rw [State.potential] at hpot
    omega

/-- The hook lets the handler of `WM_DESTROY` be called. -/
theorem handle (hI : Inv F s) {frames : List Frame} (hf : s.frames = .hook h :: frames) :
    Inv F { s with frames := .destroy h :: frames, log := (h, .destroy) :: s.log } := by
  have hcounts (a : ℕ) : (Frame.destroy h :: frames).countP (Frame.counts a) =
      s.frames.countP (Frame.counts a) := by
    rw [hf, List.countP_cons, List.countP_cons]
    rfl
  have hdestroys (a : ℕ) : (Frame.destroy h :: frames).countP (Frame.destroys a) =
      s.frames.countP (Frame.destroys a) := by
    rw [hf, List.countP_cons, List.countP_cons]
    rfl
  have hgiven (a : ℕ) : (Frame.destroy h :: frames).countP (Frame.given a) =
      s.frames.countP (Frame.given a) + if h = a then 1 else 0 := by
    rw [hf, List.countP_cons, List.countP_cons_of_neg (by simp [Frame.given])]
    simp [Frame.given, Frame.destroys]
  have hnc (a : ℕ) : (Frame.destroy h :: frames).count (.ncdestroy a) =
      s.frames.count (.ncdestroy a) := by
    rw [hf, List.count_cons_of_ne (by simp), List.count_cons_of_ne (by simp)]
  refine ⟨fun a => ?_, hI.registered, hI.live, fun a => ?_, fun a => ?_, fun a => ?_,
    fun a ha => ?_, hI.returned, hI.noSpin, ?_⟩
  · rw [hcounts]
    exact hI.count a
  · rw [hgiven, ← Nat.add_assoc, ← hI.destroyLog a, List.count_cons]
    simp [Prod.ext_iff]
  · rw [hnc, List.count_cons_of_ne (by simp)]
    exact hI.ncdestroyLog a
  · rw [hdestroys]
    exact hI.once a
  · refine hI.closed a (ha.imp_right fun hm => ?_)
    rw [← List.count_pos_iff] at hm ⊢
    exact hnc a ▸ hm
  · have hp := hI.potential
    have hu : State.unstarted { s with
        frames := .destroy h :: frames, log := (h, .destroy) :: s.log } = s.unstarted := by
      funext a
      simp only [State.unstarted, hdestroys]
    simp only [State.potential, hu, hf, List.map_cons, List.sum_cons, Frame.weight] at hp ⊢
    omega

theorem destroyWindow (hI : Inv F s) (ht : s.InTime h) : Inv F (s.destroyWindow h) := by
  unfold State.destroyWindow
  split_ifs with hl hr hp
  · exact hI
  · exact absurd ((ht hl).2 hr) hp
  · exact hI.start hl (fun hp => hr ((ht hl).1 hp)) (Nat.le_succ _)
  · exact hI

section Leave

variable {f : Frame} {frames : List Frame} {D : Finset ℕ} {returned : List ℕ}

/-- The innermost frame goes; its window may have got destroyed. -/
theorem count_leave (hI : Inv F s) (hf : s.frames = f :: frames)
    (hc : ∀ a, f.counts a = decide (f.hWnd = a)) (a : ℕ) :
    (State.leave { s with frames, bDestroyed := D, returned } f.hWnd).msgRecusiveCount a =
      frames.countP (Frame.counts a) := by
  have ha := hI.count a
  rw [hf, List.countP_cons, hc] at ha
  by_cases he : a = f.hWnd
  · subst he
    simp [State.leave, ha]
  · have he' : f.hWnd ≠ a := Ne.symm he
    simpa [State.leave, Function.update_of_ne he, he'] using ha

theorem registered_leave (hI : Inv F s)
    (hD : ∀ a, a ≠ f.hWnd → (a ∈ D ↔ a ∈ s.bDestroyed)) :
    ∀ a ∈ (State.leave { s with frames, bDestroyed := D, returned } f.hWnd).registered,
      a ∈ F.order ∧ (a ∈ D →
        0 < (State.leave { s with frames, bDestroyed := D, returned } f.hWnd).msgRecusiveCount
          a) := by
  intro a ha
  simp only [State.leave] at ha ⊢
  by_cases he : a = f.hWnd
  · subst he
    rw [Function.update_self]
    split_ifs at ha with hfree
    · exact absurd ha (Finset.notMem_erase _ _)
    · exact ⟨(hI.registered _ ha).1, fun hd => Nat.pos_of_ne_zero fun h0 => hfree ⟨h0, hd⟩⟩
  · have ha' : a ∈ s.registered := by
      split_ifs at ha
      · exact Finset.mem_of_mem_erase ha
      · exact ha
    rw [Function.update_of_ne he, hD a he]
    exact hI.registered a ha'

theorem live_leave (hI : Inv F s) (hD : s.bDestroyed ⊆ D) :
    ∀ a ∈ F.order, a ∉ D →
      a ∈ (State.leave { s with frames, bDestroyed := D, returned } f.hWnd).registered := by
  intro a ha hd
  have hreg := hI.live a ha fun h => hd (hD h)
  simp only [State.leave]
  split_ifs with hfree
  · exact Finset.mem_erase.2 ⟨fun he => hd (he ▸ hfree.2), hreg⟩
  · exact hreg

end Leave

/-- A frame that destroys nothing goes. -/
theorem pop (hI : Inv F s) {f : Frame} {frames : List Frame} (hf : s.frames = f :: frames)
    (hd : ∀ a, f.destroys a = false) (hn : ∀ a, f ≠ .ncdestroy a)
    (hw : f.weight F.order.length = 0) {count : ℕ → ℕ} {registered : Finset ℕ}
    (hcount : ∀ a, count a = frames.countP (Frame.counts a))
    (hreg : ∀ a ∈ registered, a ∈ F.order ∧ (a ∈ s.bDestroyed → 0 < count a))
    (hlive : ∀ a ∈ F.order, a ∉ s.bDestroyed → a ∈ registered) :
    Inv F { s with frames, msgRecusiveCount := count, registered } := by
  have hdestroys (a : ℕ) : s.frames.countP (Frame.destroys a) =
      frames.countP (Frame.destroys a) := by
    rw [hf, List.countP_cons_of_neg (by simp [hd])]
  have hgiven (a : ℕ) : s.frames.countP (Frame.given a) = frames.countP (Frame.given a) := by
    rw [hf]
    exact List.countP_cons_of_neg fun h => by simpa [hd] using Frame.destroys_of_given h
  have hnc (a : ℕ) : s.frames.count (.ncdestroy a) = frames.count (.ncdestroy a) := by
    rw [hf, List.count_cons_of_ne (hn a)]
  refine ⟨hcount, hreg, hlive, fun a => ?_, fun a => ?_, fun a => ?_, fun a ha => ?_, hI.returned,
    hI.noSpin, ?_⟩
  · rw [← hgiven]
    exact hI.destroyLog a
  · rw [← hnc]
    exact hI.ncdestroyLog a
  · rw [← hdestroys]
    exact hI.once a
  · refine hI.closed a (ha.imp_right fun hm => ?_)
    rw [hf]
    exact List.mem_cons_of_mem _ hm
  · have hp := hI.potential
    have hu : State.unstarted { s with frames, msgRecusiveCount := count, registered } =
        s.unstarted := by
      funext a
      simp only [State.unstarted, hdestroys]
    simp only [State.potential, hu, hf, List.map_cons, List.sum_cons, hw] at hp ⊢
    omega

theorem leave (hI : Inv F s) {sent : Bool} {frames : List Frame}
    (hf : s.frames = .other h sent :: frames) : Inv F (State.leave { s with frames } h) :=
  hI.pop hf (fun _ => rfl) (by simp) rfl (hI.count_leave hf fun _ => rfl)
    (hI.registered_leave (f := .other h sent) fun _ _ => Iff.rfl)
    (hI.live_leave (f := .other h sent) (Finset.Subset.refl _))

/-- A handler inside the `switch` returns. -/
theorem popInner (hI : Inv F s) {sent goesOn : Bool} {frames : List Frame}
    (hf : s.frames = .inner h sent goesOn :: frames) : Inv F { s with frames } := by
  refine hI.pop hf (fun _ => rfl) (by simp) rfl (fun a => ?_) hI.registered hI.live
  rw [hI.count, hf, List.countP_cons_of_neg (by simp [Frame.counts])]

/-- The loop ends when no child is registered, and then all are destroyed. -/
theorem children_destroyed (hI : Inv F s) (hc : s.childLast F h = none) {c : ℕ} (hm : c ∈ F.order)
    (hchild : F.isChild c = true) (hparent : F.parent c = h) : c ∈ s.bDestroyed := by
  rw [State.childLast, List.getLast?_eq_none_iff, List.filter_eq_nil_iff] at hc
  have hreg : c ∉ s.registered := fun hr => hc c hm (by simp [hchild, hparent, hr])
  by_contra hd
  exact hreg (hI.live c hm hd)

theorem childrenDone (hI : Inv F s) {frames : List Frame} (hf : s.frames = .children h :: frames)
    (hc : s.childLast F h = none) :
    Inv F { s with
      frames := .ncdestroy h :: frames
      log := (h, .ncdestroy) :: s.log
      steps := s.steps + 1 } := by
  have hcount (a : ℕ) : (Frame.ncdestroy h :: frames).countP (Frame.destroys a) =
      s.frames.countP (Frame.destroys a) := by
    rw [hf, List.countP_cons, List.countP_cons]
    rfl
  have hgiven (a : ℕ) : (Frame.ncdestroy h :: frames).countP (Frame.given a) =
      s.frames.countP (Frame.given a) := by
    rw [hf, List.countP_cons, List.countP_cons]
    rfl
  have hnc (a : ℕ) : s.frames.count (.ncdestroy a) = frames.count (.ncdestroy a) := by
    rw [hf, List.count_cons_of_ne (by simp)]
  refine ⟨fun a => ?_, hI.registered, hI.live, fun a => ?_, fun a => ?_, fun a => ?_,
    fun a ha => ?_, hI.returned, hI.noSpin, ?_⟩
  · rw [hI.count, hf, List.countP_cons, List.countP_cons]
    rfl
  · rw [hgiven, List.count_cons_of_ne (by simp)]
    exact hI.destroyLog a
  · rw [List.count_cons, List.count_cons, hI.ncdestroyLog a, hnc]
    simp [Prod.ext_iff, Nat.add_assoc]
  · rw [hcount]
    exact hI.once a
  · rcases ha with ha | ha
    · exact hI.closed a (.inl ha)
    · rcases List.mem_cons.1 ha with he | ha
      · obtain rfl : a = h := by simpa using he
        exact fun c hm hchild hparent => hI.children_destroyed hc hm hchild hparent
      · exact hI.closed a (.inr (by rw [hf]; exact List.mem_cons_of_mem _ ha))
  · have hp := hI.potential
    have hu : State.unstarted { s with
        frames := .ncdestroy h :: frames
        log := (h, .ncdestroy) :: s.log
        steps := s.steps + 1 } = s.unstarted := by
      funext a
      simp only [State.unstarted, hcount]
    simp only [State.potential, hu, hf, List.map_cons, List.sum_cons, Frame.weight] at hp ⊢
    omega

theorem finish (hI : Inv F s) {frames : List Frame} (hf : s.frames = .ncdestroy h :: frames) :
    Inv F (State.finish { s with frames } h) := by
  have hcount (a : ℕ) : s.frames.countP (Frame.destroys a) =
      frames.countP (Frame.destroys a) + if h = a then 1 else 0 := by
    rw [hf, List.countP_cons]
    simp [Frame.destroys]
  have hgiven (a : ℕ) : s.frames.countP (Frame.given a) =
      frames.countP (Frame.given a) + if h = a then 1 else 0 := by
    rw [hf, List.countP_cons]
    simp [Frame.given, Frame.destroys]
  have hnc (a : ℕ) : s.frames.count (.ncdestroy a) =
      frames.count (.ncdestroy a) + if h = a then 1 else 0 := by
    rw [hf, List.count_cons]
    simp
  have hh : h ∉ s.bDestroyed := fun hd => by
    have := hI.once h
    rw [if_pos hd, hcount, if_pos rfl] at this
    omega
  have hmem (a : ℕ) : (if a ∈ insert h s.bDestroyed then 1 else 0) =
      (if a ∈ s.bDestroyed then 1 else 0) + if h = a then 1 else 0 := by
    rcases eq_or_ne h a with rfl | ha
    · simp [hh]
    · simp [ha, Ne.symm ha]
  refine ⟨hI.count_leave hf fun _ => rfl,
    hI.registered_leave (f := .ncdestroy h) fun a ha => ?_,
    hI.live_leave (f := .ncdestroy h) (Finset.subset_insert _ _), fun a => ?_, fun a => ?_,
    fun a => ?_, fun a ha => ?_, fun a ha => ?_, hI.noSpin, ?_⟩
  · exact Finset.mem_insert.trans (or_iff_right ha)
  · change s.log.count (a, .destroy) = (if a ∈ insert h s.bDestroyed then 1 else 0) +
      frames.countP (Frame.given a)
    rw [hI.destroyLog, hgiven, hmem]
    omega
  · change s.log.count (a, .ncdestroy) = (if a ∈ insert h s.bDestroyed then 1 else 0) +
      frames.count (.ncdestroy a)
    rw [hI.ncdestroyLog, hnc, hmem]
    omega
  · change (if a ∈ insert h s.bDestroyed then 1 else 0) + frames.countP (Frame.destroys a) ≤ 1
    have := hI.once a
    rw [hcount] at this
    rw [hmem]
    omega
  · have ha' : a ∈ s.bDestroyed ∨ .ncdestroy a ∈ s.frames := by
      rcases ha with ha | ha
      · rcases Finset.mem_insert.1 ha with rfl | ha
        · exact .inr (by rw [hf]; exact List.mem_cons_self)
        · exact .inl ha
      · exact .inr (by rw [hf]; exact List.mem_cons_of_mem _ ha)
    exact fun c hm hc hp => Finset.mem_insert_of_mem (hI.closed a ha' c hm hc hp)
  · rcases List.mem_cons.1 ha with rfl | ha
    · exact Finset.mem_insert_self _ _
    · exact Finset.mem_insert_of_mem (hI.returned a ha)
  · have hp := hI.potential
    have hu : State.unstarted (State.finish { s with frames } h) = s.unstarted := by
      funext a
      change (decide (a ∉ insert h s.bDestroyed) && decide (frames.countP (Frame.destroys a) = 0)) =
        (decide (a ∉ s.bDestroyed) && decide (s.frames.countP (Frame.destroys a) = 0))
      rw [hcount]
      rcases eq_or_ne h a with rfl | ha
      · simp
      · simp [ha, Ne.symm ha]
    simp only [State.potential, hu, hf, List.map_cons, List.sum_cons, Frame.weight] at hp ⊢
    simpa [State.finish, State.leave] using hp

theorem ownedRound (hI : Inv F s) {x : ℕ} {rest : List ℕ} {frames : List Frame}
    (hf : s.frames = .owned h (x :: rest) :: frames) :
    Inv F { s with frames := .owned h rest :: frames, steps := s.steps + 1 } :=
  hI.replace hf (.owned h rest) _ (fun _ => rfl) (fun _ => rfl) (fun _ => rfl) (by simp) (by simp)
    (by simp only [Frame.weight, List.length_cons]; omega)

theorem inTime_ownedRound {x : ℕ} {rest : List ℕ} {frames : List Frame}
    (hf : s.frames = .owned h (x :: rest) :: frames) :
    State.InTime { s with frames := .owned h rest :: frames, steps := s.steps + 1 } x ↔
      s.InTime x := by
  have hp : State.InProgress { s with
      frames := .owned h rest :: frames, steps := s.steps + 1 } x ↔ s.InProgress x := by
    simp only [State.InProgress, hf, List.countP_cons]
    exact Iff.rfl
  have hr : State.Refuses { s with
      frames := .owned h rest :: frames, steps := s.steps + 1 } ↔ s.Refuses := by
    simp only [State.Refuses, State.nCallStack, hf, List.countP_cons]
    exact Iff.rfl
  rw [State.InTime, hp, hr]
  exact Iff.rfl

theorem next {s' : State} (hI : Inv F s) {act : Act} (ht : DestroysInTime F s act)
    (hn : Destroy.next F s act = some s') : Inv F s' := by
  cases act with
  | message h sent =>
    simp only [Destroy.next, Option.ite_none_right_eq_some, Option.some.injEq] at hn
    obtain ⟨-, rfl⟩ := hn
    exact hI.other h sent
  | innerMessage h sent goesOn =>
    simp only [Destroy.next, Option.ite_none_right_eq_some, Option.some.injEq] at hn
    obtain ⟨-, rfl⟩ := hn
    exact hI.inner h sent goesOn
  | destroyWindow h =>
    simp only [Destroy.next, Option.ite_none_right_eq_some, Option.some.injEq] at hn
    obtain ⟨-, rfl⟩ := hn
    exact hI.destroyWindow ht
  | hookDone bSkipMsg =>
    simp only [Destroy.next] at hn
    split at hn
    case h_2 => cases hn
    case h_1 h frames hf =>
      obtain rfl : bSkipMsg = false := ht
      -- the window has one destruction, which is not over
      have hd : h ∉ s.bDestroyed := fun hd => by
        have := hI.once h
        rw [if_pos hd, hf, List.countP_cons_of_pos (by simp [Frame.destroys])] at this
        omega
      rw [if_neg (by simp [hd])] at hn
      obtain rfl := Option.some.inj hn
      exact hI.handle hf
  | ret =>
    simp only [Destroy.next] at hn
    split at hn
    case h_5 => cases hn
    case h_1 h sent goesOn frames hf =>
      obtain rfl := Option.some.inj hn
      cases goesOn with
      | true => exact (hI.popInner hf).other h sent
      | false => exact hI.popInner hf
    case h_2 h sent frames hf =>
      obtain rfl := Option.some.inj hn
      exact hI.leave hf
    case h_3 h frames hf =>
      obtain rfl := Option.some.inj hn
      refine hI.replace hf (.owned h _) s.steps (fun _ => rfl) (fun _ => rfl) (fun _ => rfl)
        (by simp) (by simp) ?_
      have := List.length_filter_le (fun c => F.isChild c = false ∧ c ∈ s.registered) F.order
      simp only [Frame.weight, State.toplevel]
      omega
    case h_4 h frames hf =>
      obtain rfl := Option.some.inj hn
      exact hI.finish hf
  | step =>
    simp only [Destroy.next] at hn
    split at hn
    case h_4 => cases hn
    case h_1 h x rest frames hf =>
      split_ifs at hn with hx
      · obtain rfl := Option.some.inj hn
        simp only [DestroysInTime, hf] at ht
        exact (hI.ownedRound hf).destroyWindow ((inTime_ownedRound hf).2 (ht hx.2))
      · obtain rfl := Option.some.inj hn
        exact hI.ownedRound hf
    case h_2 h frames hf =>
      obtain rfl := Option.some.inj hn
      exact hI.replace hf (.children h) _ (fun _ => rfl) (fun _ => rfl) (fun _ => rfl) (by simp)
        (by simp) (by simp [Frame.weight])
    case h_3 h frames hf =>
      simp only [DestroysInTime, hf] at ht
      change (match s.childLast F h with
        | some c => some (State.childRound { s with steps := s.steps + 1 } c)
        | none => if h ∈ s.bDestroyed then
            some (State.finish { s with steps := s.steps + 1, frames } h) else
            some { s with
              frames := .ncdestroy h :: frames
              log := (h, .ncdestroy) :: s.log
              steps := s.steps + 1 }) = some s' at hn
      cases hc : s.childLast F h with
      | some c =>
        rw [hc] at hn
        obtain rfl := Option.some.inj hn
        obtain ⟨hl, hp, hr⟩ := ht c hc
        rw [childRound_eq (s := { s with steps := s.steps + 1 }) hl hr]
        exact hI.start hl hp (Nat.le_refl _)
      | none =>
        rw [hc] at hn
        have hd : h ∉ s.bDestroyed := fun hd => by
          have := hI.once h
          rw [if_pos hd, hf, List.countP_cons_of_pos (by simp [Frame.destroys])] at this
          omega
        simp only [if_neg hd] at hn
        obtain rfl := Option.some.inj hn
        exact hI.childrenDone hf hc

end Inv

section Bad

variable {F : Forest} {s : State} {h : ℕ}

/-- A call that is out of time destroys a window twice, or returns without destroying it. -/
theorem inTime_of_proper
    (hlog : h ∉ s.bDestroyed → s.log.count (h, .destroy) ≤ s.frames.countP (Frame.destroys h))
    (hp : Proper F (s.destroyWindow h)) : s.InTime h := by
  intro hl
  have hcount := hlog hl.2
  by_cases hr : s.Refuses
  · refine iff_of_true ?_ hr
    by_contra hnot
    have hs : s.destroyWindow h = { s with returned := h :: s.returned } := by
      rw [State.destroyWindow, if_pos hl, if_pos hr, if_neg hnot]
    rw [hs] at hp
    have hone : s.log.count (h, .destroy) = 1 := hp.complete h List.mem_cons_self h .refl .destroy
    rw [State.InProgress] at hnot
    omega
  · refine iff_of_false (fun hprog => ?_) hr
    have hs : s.destroyWindow h = s.enter (.hook h) := by
      rw [State.destroyWindow, if_pos hl, if_neg hr]
    rw [hs] at hp
    have hbegun : _ + (Frame.hook h :: s.frames).countP (Frame.destroys h) ≤ 1 := hp.begun h
    rw [List.countP_cons_of_pos (by simp [Frame.destroys])] at hbegun
    rw [State.InProgress] at hprog
    omega

theorem spins_destroyWindow : (s.destroyWindow h).spins = s.spins := by
  unfold State.destroyWindow
  split_ifs <;> rfl

/-- A round for a child that is destroyed, or that is refused, has no effect. -/
theorem live_of_noSpin {c : ℕ} (h : (s.childRound c).spins = 0) : s.Live c ∧ ¬ s.Refuses := by
  rw [State.childRound, spins_destroyWindow] at h
  by_contra hnot
  simp [hnot] at h

end Bad

/-- **A proper destruction, exactly**: in every state of a run the destructions are proper if and
only if every `DestroyWindow` of the run reaches its window in time. -/
theorem proper_iff (F : Forest) (acts : List Act) :
    (lts F).AllStates (Proper F) (init F) acts ↔
      (lts F).AllSteps (DestroysInTime F) (init F) acts := by
  refine LTS.allStates_iff_allSteps (I := Inv F) (fun _ h => h.proper)
    (fun _ _ _ hI ht hn => hI.next ht hn) ?_ (inv_init F)
  intro s act s' hI hn hp
  have hlog (h : ℕ) (hd : h ∉ s.bDestroyed) :
      s.log.count (h, .destroy) ≤ s.frames.countP (Frame.destroys h) := by
    rw [hI.destroyLog, if_neg hd, Nat.zero_add]
    exact countP_given_le _ _
  cases act with
  | message h sent => trivial
  | innerMessage h sent goesOn => trivial
  | ret => trivial
  | hookDone bSkipMsg =>
    simp only [lts, Destroy.next] at hn
    split at hn
    case h_2 => cases hn
    case h_1 h frames hf =>
      show bSkipMsg = false
      by_contra hskip
      rw [if_pos (.inl (Bool.eq_true_of_not_eq_false hskip))] at hn
      obtain rfl := Option.some.inj hn
      have honce := hI.once h
      have hlogh := hI.destroyLog h
      rw [hf, List.countP_cons_of_pos (by simp [Frame.destroys])] at honce
      rw [hf, List.countP_cons_of_neg (by simp [Frame.given])] at hlogh
      have hle := countP_given_le frames h
      have hpos := hp.given h (by
        rw [List.countP_cons_of_pos (by simp [Frame.given, Frame.destroys])]
        exact Nat.succ_pos _)
      simp only at hpos
      omega
  | destroyWindow h =>
    simp only [lts, Destroy.next, Option.ite_none_right_eq_some, Option.some.injEq] at hn
    obtain ⟨-, rfl⟩ := hn
    exact inTime_of_proper (hlog h) hp
  | step =>
    simp only [lts, Destroy.next] at hn
    split at hn
    case h_4 => cases hn
    case h_1 h x rest frames hf =>
      simp only [DestroysInTime, hf]
      intro hparent
      split_ifs at hn with hx
      · obtain rfl := Option.some.inj hn
        have hlog' := (hI.ownedRound hf).destroyLog x
        refine (Inv.inTime_ownedRound hf).1 (inTime_of_proper (fun hd => ?_) hp)
        rw [hlog', if_neg hd, Nat.zero_add]
        exact countP_given_le _ _
      · exact fun hl => absurd ⟨hl.1, hparent⟩ hx
    case h_2 h frames hf => simp [DestroysInTime, hf]
    case h_3 h frames hf =>
      simp only [DestroysInTime, hf]
      intro c hc
      have hc' : State.childLast F { s with steps := s.steps + 1 } h = some c := hc
      rw [hc'] at hn
      obtain rfl := Option.some.inj hn
      obtain ⟨hl, hr⟩ := live_of_noSpin hp.noSpin
      refine ⟨hl, fun hprog => ?_, hr⟩
      rw [State.childRound, if_pos ⟨hl, hr⟩] at hp
      have htime := inTime_of_proper (s := { s with steps := s.steps + 1 }) (hlog c) hp
      exact hr ((htime hl).1 hprog)

/-- The thread can always go on: a handler returns, or the thread makes its next step. -/
theorem exists_next (F : Forest) {s : State} (h : s.frames ≠ []) :
    (Destroy.next F s .ret).isSome = true ∨ (Destroy.next F s (.hookDone false)).isSome = true ∨
      (Destroy.next F s .step).isSome = true := by
  obtain ⟨registered, bDestroyed, count, frames, log, returned, spins, steps⟩ := s
  rcases frames with _ | ⟨_ | _ | _ | _ | ⟨_, _ | _⟩ | _ | _, frames⟩
  · exact absurd rfl h
  · exact .inl rfl
  · exact .inl rfl
  · refine .inr (.inl ?_)
    simp only [Destroy.next]
    split_ifs <;> rfl
  · exact .inl rfl
  · exact .inr (.inr rfl)
  · refine .inr (.inr ?_)
    simp only [Destroy.next]
    split_ifs <;> rfl
  · refine .inr (.inr ?_)
    simp only [Destroy.next]
    split
    · rfl
    · split_ifs <;> rfl
  · exact .inl rfl

/-- A handler of `WM_DESTROY` that destroys its own window is called again. -/
theorem destroyed_in_handler : ∃ s, (lts ⟨[1], fun _ => 0, fun _ => false⟩).run
    (init ⟨[1], fun _ => 0, fun _ => false⟩)
      [.destroyWindow 1, .hookDone false, .destroyWindow 1, .hookDone false] = some s ∧
    s.log = [(1, .destroy), (1, .destroy)] ∧ ¬ Proper ⟨[1], fun _ => 0, fun _ => false⟩ s :=
  ⟨_, rfl, by decide, fun h => absurd (h.once 1 .destroy) (by decide)⟩

end Destroy

end Swinx
