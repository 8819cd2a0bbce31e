import Mathlib.Data.List.Basic
import Mathlib.Tactic.ByContra
import Mathlib.Tactic.SplitIfs
import Swinx.LTS.Basic

/-!
# The source of a drag

`DoDragDrop` pumps messages until the drag is over.  Each mouse or key message asks the drop source
how to go on and tells the window under the mouse about it; the replies of the windows come as
messages as well.  After the drag has ended the loop goes on until the target has finished.

The drop source may pump messages itself while it is asked.

* `sessions_iff` — these are the runs with such sessions.
* `left_after_drop` — after a drop the window is told that the drag has left it.
-/

namespace Swinx

namespace Xdnd

/-- The messages to a target. -/
inductive Kind
  | enter
  | position
  | leave
  | drop
  deriving DecidableEq, Repr

/-- A message that was sent. -/
structure Sent where
  kind : Kind
  window : ℕ
  /-- The current target. -/
  current : ℕ
  /-- The latest status of the window accepted. -/
  accepted : Bool
  deriving DecidableEq, Repr

/-- `S_OK`, `DRAGDROP_S_DROP` and `DRAGDROP_S_CANCEL` -/
inductive HResult
  | ok
  | drop
  | cancel
  deriving DecidableEq, Repr

/-- Where `DoDragDrop` is. -/
inductive Pc
  | loop
  /-- In `QueryContinueDrag`; the window under the mouse. -/
  | querying (hwndNewTarget : ℕ)
  | returned
  deriving DecidableEq, Repr

/-- `SDragDrop`, and what has happened. -/
structure State where
  trackingDone : Bool
  /-- `E_ABORT` is `none`. -/
  returnValue : Option HResult
  dragEnded : Bool
  curTargetHWND : ℕ
  /-- `*pdwEffect`; `DROPEFFECT_NONE` is 0. -/
  dwEffect : ℕ
  pc : Pc
  sent : List Sent
  /-- The latest status of each window accepted. -/
  latest : ℕ → Bool

/-- The loop begins; `*pdwEffect` holds what the caller has put there. -/
def init (dwEffect : ℕ) : State := ⟨false, none, false, 0, dwEffect, .loop, [], fun _ => false⟩

namespace State

/-- `xcb_send_event32` -/
def send (s : State) (kind : Kind) (window : ℕ) : State :=
  { s with sent := s.sent ++ [⟨kind, window, s.curTargetHWND, s.latest window⟩] }

/-- `give_feedback` -/
def giveFeedback (s : State) : State := if s.curTargetHWND = 0 then { s with dwEffect := 0 } else s

/-- `drag_end` -/
def dragEnd (s : State) : State :=
  if s.returnValue = some .drop ∧ s.dwEffect ≠ 0 then
    { s.send .drop s.curTargetHWND with dragEnded := true }
  else { s with trackingDone := true, dwEffect := 0, dragEnded := true }

/-- The target changes. -/
def changeTarget (s : State) (hwndNewTarget : ℕ) : State :=
  let s₁ :=
    if s.curTargetHWND ≠ 0 then { s.send .leave s.curTargetHWND with curTargetHWND := 0 } else s
  if hwndNewTarget ≠ 0 then
    ({ s₁ with curTargetHWND := hwndNewTarget }.send .enter hwndNewTarget).send .position
      hwndNewTarget
  else s₁

/-- `TrackStateChange` up to `QueryContinueDrag`; `inTrackCall` is set while this runs. -/
def trackStateChange (s : State) (hwndNewTarget : ℕ) : State :=
  if s.pc = .loop then { s with pc := .querying hwndNewTarget } else s

/-- `QueryContinueDrag` has returned, and the target may have changed. -/
def answered (s : State) (hwndNewTarget : ℕ) (returnValue : HResult) : State :=
  let s := { s with returnValue := some returnValue, pc := .loop }
  if s.curTargetHWND ≠ hwndNewTarget ∧ returnValue ≠ .cancel then s.changeTarget hwndNewTarget
  else s

/-- The rest of `TrackStateChange`, from the return of `QueryContinueDrag` on. -/
def queryContinueDrag (s : State) (hwndNewTarget : ℕ) (returnValue : HResult) : State :=
  let s := s.answered hwndNewTarget returnValue
  if returnValue = .ok then
    if s.curTargetHWND ≠ 0 then s.send .position s.curTargetHWND else s.giveFeedback
  else s.dragEnd

/-- `OnXdndStatus`, for the status of a window -/
def onXdndStatus (s : State) (window : ℕ) (accept : Bool) (effect : ℕ) : State :=
  let dwEffect := if accept then effect else 0
  { s with
    dwEffect
    latest := fun w => if w = window then decide (dwEffect ≠ 0) else s.latest w }.giveFeedback

/-- `OnXdndFinish` -/
def onXdndFinish (s : State) (accept : Bool) (effect : ℕ) : State :=
  { s with
    trackingDone := true
    dwEffect := if accept then effect else 0
    returnValue := some (if accept then .drop else .cancel) }

/-- What comes after the loop. -/
def leaveLoop (s : State) : State :=
  let s := if s.curTargetHWND ≠ 0 then s.send .leave s.curTargetHWND else s
  { s with pc := .returned }

end State

/-- What happens. -/
inductive Act
  /-- A mouse or key message, in the loop or dispatched to the tracker window; the drop target
  under the mouse, if there is one. -/
  | track (hwndNewTarget : ℕ)
  | answer (returnValue : HResult)
  | status (window : ℕ) (accept : Bool) (effect : ℕ)
  | finish (accept : Bool) (effect : ℕ)
  /-- The loop ends, perhaps with `WM_QUIT`. -/
  | leaveLoop (quit : Bool)
  deriving DecidableEq, Repr

/-- One step. -/
def next (s : State) : Act → Option State
  | .track hwndNewTarget =>
    if s.pc = .loop ∧ s.trackingDone = true ∨ s.pc = .returned then none
    else some (s.trackStateChange hwndNewTarget)
  | .answer returnValue =>
    match s.pc with
    | .querying hwndNewTarget => some (s.queryContinueDrag hwndNewTarget returnValue)
    | _ => none
  | .status window accept effect =>
    if s.pc = .loop ∧ s.trackingDone = true ∨ s.pc = .returned then none
    else some (s.onXdndStatus window accept effect)
  | .finish accept effect =>
    if s.pc = .loop ∧ s.trackingDone = true ∨ s.pc = .returned then none
    else some (s.onXdndFinish accept effect)
  | .leaveLoop quit =>
    if s.pc = .loop ∧ (s.trackingDone = true ∨ quit = true) then some s.leaveLoop else none

/-- The program. -/
def lts : LTS State Act := ⟨next⟩

/-- How far the sessions of a window are. -/
inductive Phase
  | outside
  | inside
  | dropped
  deriving DecidableEq, Repr

/-- What may be sent to a window: `Enter`, then `Position`s, then `Leave` or `Drop`, and nothing
after `Drop`. -/
def Phase.step : Phase → Kind → Option Phase
  | .outside, .enter => some .inside
  | .inside, .position => some .inside
  | .inside, .leave => some .outside
  | .inside, .drop => some .dropped
  | _, _ => none

namespace State

/-- The messages to a window. -/
def sentTo (s : State) (window : ℕ) : List Kind :=
  (s.sent.filter fun m => m.window = window).map Sent.kind

/-- How far the sessions of the window are, if what was sent forms sessions. -/
def phase (s : State) (window : ℕ) : Option Phase :=
  (s.sentTo window).foldlM Phase.step .outside

/-- A drop has been sent. -/
def Dropped (s : State) : Prop := ∃ m ∈ s.sent, m.kind = .drop

instance decidableDropped (s : State) : Decidable s.Dropped := by
  unfold Dropped
  infer_instance

end State

/-- **The protocol of the source.** -/
structure Sound (s : State) : Prop where
  real : ∀ m ∈ s.sent, m.window ≠ 0
  sessions : ∀ window, (s.phase window).isSome = true
  /-- Each session is over when the drag is. -/
  closed : s.pc = .returned → ∀ window, s.phase window ≠ some .inside
  drops : ∀ m ∈ s.sent, m.kind = .drop → m.window = m.current ∧ m.accepted = true
  /-- A drag that ends without a drop ends the loop. -/
  ends : s.dragEnded = true → ¬ s.Dropped → s.trackingDone = true

/-- **The steps that keep to it**: a drop is sent to a window whose latest status accepts, and
nothing is sent after it. -/
def Orderly (s : State) : Act → Prop
  | .answer returnValue =>
    match s.pc with
    | .querying hwndNewTarget =>
      (returnValue = .drop ∧ s.dwEffect ≠ 0 →
        hwndNewTarget ≠ 0 ∧ s.latest hwndNewTarget = true) ∧
      (s.Dropped → returnValue = .cancel ∨
        returnValue = .drop ∧ hwndNewTarget = s.curTargetHWND ∧ s.dwEffect = 0)
    | _ => True
  | .leaveLoop _ => ¬ s.Dropped
  | _ => True

/-! ### What is sent -/

theorem sentTo_send (s : State) (kind : Kind) (window w : ℕ) :
    (s.send kind window).sentTo w = s.sentTo w ++ if window = w then [kind] else [] := by
  unfold State.sentTo State.send
  rw [List.filter_append, List.map_append, List.filter_singleton]
  split_ifs <;> simp_all

theorem phase_send (s : State) (kind : Kind) (window w : ℕ) :
    (s.send kind window).phase w =
      if window = w then (s.phase w).bind fun p => p.step kind else s.phase w := by
  unfold State.phase
  rw [sentTo_send]
  split_ifs
  · rw [List.foldlM_append]
    cases List.foldlM Phase.step Phase.outside (s.sentTo w) with
    | none => rfl
    | some p =>
      change (p.step kind).bind some = p.step kind
      cases p.step kind <;> rfl
  · rw [List.append_nil]

theorem mem_sent_send {s : State} {kind : Kind} {window : ℕ} {m : Sent} :
    m ∈ (s.send kind window).sent ↔
      m ∈ s.sent ∨ m = ⟨kind, window, s.curTargetHWND, s.latest window⟩ := by
  simp [State.send]

theorem dropped_send {s : State} {kind : Kind} {window : ℕ} :
    (s.send kind window).Dropped ↔ s.Dropped ∨ kind = .drop := by
  simp only [State.Dropped, mem_sent_send, or_and_right, exists_or, exists_eq_left]

/-- The sessions of all windows but one are over. -/
structure State.At (s : State) (window : ℕ) (p : Phase) : Prop where
  rest : ∀ w, w ≠ window → s.phase w = some .outside
  self : s.phase window = some p

variable {s s' : State} {window : ℕ} {p p' : Phase} {kind : Kind}

theorem State.At.send (h : s.At window p) (hstep : p.step kind = some p') :
    (s.send kind window).At window p' := by
  refine ⟨fun w hw => ?_, ?_⟩
  · rw [phase_send, if_neg hw.symm]
    exact h.rest w hw
  · rw [phase_send, if_pos rfl, h.self]
    exact hstep

/-- When all sessions are over, no window is different from the others. -/
theorem State.At.switch (h : s.At window .outside) (window' : ℕ) : s.At window' .outside := by
  have hall : ∀ w, s.phase w = some .outside := fun w => by
    by_cases hw : w = window
    · exact hw ▸ h.self
    · exact h.rest w hw
  exact ⟨fun w _ => hall w, hall window'⟩

theorem State.At.isSome (h : s.At window p) (w : ℕ) : (s.phase w).isSome = true := by
  by_cases hw : w = window
  · rw [hw, h.self]
    rfl
  · rw [h.rest w hw]
    rfl

/-- **Before a drop**: the session of the current target is open, and all others are over. -/
structure Open (s : State) : Prop where
  real : ∀ m ∈ s.sent, m.window ≠ 0
  notDropped : ¬ s.Dropped
  place : s.At s.curTargetHWND (if s.curTargetHWND = 0 then .outside else .inside)

/-- **After a drop**: the sessions of all windows are over. -/
structure Closed (s : State) : Prop where
  real : ∀ m ∈ s.sent, m.window ≠ 0
  drops : ∀ m ∈ s.sent, m.kind = .drop → m.window = m.current ∧ m.accepted = true
  dropped : s.Dropped
  target : s.curTargetHWND ≠ 0
  place : s.At s.curTargetHWND .dropped

/-- **The invariant of the orderly runs.** -/
inductive Inv (s : State) : Prop
  | before (h : Open s) (hpc : s.pc ≠ .returned)
      (hends : s.dragEnded = true → s.trackingDone = true)
  | after (h : Closed s) (hpc : s.pc ≠ .returned)
  | returned (hreal : ∀ m ∈ s.sent, m.window ≠ 0) (hnot : ¬ s.Dropped)
      (hplace : s.At 0 .outside) (hpc : s.pc = .returned)
      (hends : s.dragEnded = true → s.trackingDone = true)

theorem inv_init (dwEffect : ℕ) : Inv (init dwEffect) :=
  .before ⟨fun _ h => absurd h List.not_mem_nil, fun ⟨_, h, _⟩ => absurd h List.not_mem_nil,
    ⟨fun _ _ => rfl, rfl⟩⟩ (fun h => nomatch h) (fun h => nomatch h)

theorem drops_of_not_dropped (h : ¬ s.Dropped) {m : Sent} (hm : m ∈ s.sent) : m.kind ≠ .drop :=
  fun hk => h ⟨m, hm, hk⟩

theorem Inv.sound (hI : Inv s) : Sound s := by
  cases hI with
  | before h hpc hends =>
    exact
      { real := h.real
        sessions := h.place.isSome
        closed := fun hr => absurd hr hpc
        drops := fun m hm hk => absurd hk (drops_of_not_dropped h.notDropped hm)
        ends := fun he _ => hends he }
  | after h hpc =>
    exact
      { real := h.real
        sessions := h.place.isSome
        closed := fun hr => absurd hr hpc
        drops := h.drops
        ends := fun _ hnot => absurd h.dropped hnot }
  | returned hreal hnot hplace hpc hends =>
    exact
      { real := hreal
        sessions := hplace.isSome
        closed := fun _ w hw => by
          rw [(hplace.switch w).self] at hw
          exact absurd (Option.some.inj hw) (by decide)
        drops := fun m hm hk => absurd hk (drops_of_not_dropped hnot hm)
        ends := fun he _ => hends he }

/-! ### Steps before a drop -/

theorem Open.congr (h : Open s) (hsent : s'.sent = s.sent)
    (hcur : s'.curTargetHWND = s.curTargetHWND) : Open s' := by
  have hphase : ∀ w, s'.phase w = s.phase w := fun w => by
    unfold State.phase State.sentTo
    rw [hsent]
  refine ⟨hsent ▸ h.real, ?_, ?_⟩
  · unfold State.Dropped
    rw [hsent]
    exact h.notDropped
  · rw [hcur]
    exact ⟨fun w hw => (hphase w).trans (h.place.rest w hw), (hphase _).trans h.place.self⟩

theorem Closed.congr (h : Closed s) (hsent : s'.sent = s.sent)
    (hcur : s'.curTargetHWND = s.curTargetHWND) : Closed s' := by
  have hphase : ∀ w, s'.phase w = s.phase w := fun w => by
    unfold State.phase State.sentTo
    rw [hsent]
  refine ⟨hsent ▸ h.real, hsent ▸ h.drops, ?_, hcur ▸ h.target, ?_⟩
  · unfold State.Dropped
    rw [hsent]
    exact h.dropped
  · rw [hcur]
    exact ⟨fun w hw => (hphase w).trans (h.place.rest w hw), (hphase _).trans h.place.self⟩

theorem real_send (h : ∀ m ∈ s.sent, m.window ≠ 0) (hwindow : window ≠ 0) :
    ∀ m ∈ (s.send kind window).sent, m.window ≠ 0 := by
  intro m hm
  rcases mem_sent_send.1 hm with hm | rfl
  · exact h m hm
  · exact hwindow

theorem Open.position (h : Open s) (hcur : s.curTargetHWND ≠ 0) :
    Open (s.send .position s.curTargetHWND) := by
  have hplace := h.place
  rw [if_neg hcur] at hplace
  refine ⟨real_send h.real hcur, fun hd => ?_, ?_⟩
  · exact (dropped_send.1 hd).elim h.notDropped (by simp)
  · change (s.send .position s.curTargetHWND).At s.curTargetHWND
      (if s.curTargetHWND = 0 then .outside else .inside)
    rw [if_neg hcur]
    exact hplace.send rfl

theorem Open.leave (h : Open s) :
    (∀ m ∈ (if s.curTargetHWND ≠ 0 then s.send .leave s.curTargetHWND else s).sent,
      m.window ≠ 0) ∧
    ¬ (if s.curTargetHWND ≠ 0 then s.send .leave s.curTargetHWND else s).Dropped ∧
    (if s.curTargetHWND ≠ 0 then s.send .leave s.curTargetHWND else s).At 0 .outside := by
  have hplace := h.place
  by_cases hcur : s.curTargetHWND = 0
  · rw [if_neg (not_not.2 hcur)]
    rw [if_pos hcur, hcur] at hplace
    exact ⟨h.real, h.notDropped, hplace⟩
  · rw [if_pos hcur]
    rw [if_neg hcur] at hplace
    refine ⟨real_send h.real hcur, fun hd => ?_, (hplace.send rfl).switch 0⟩
    exact (dropped_send.1 hd).elim h.notDropped (by simp)

/-- The session of the old target is over, and the target is forgotten. -/
theorem Open.left (h : Open s) :
    Open (if s.curTargetHWND ≠ 0 then
      { s.send .leave s.curTargetHWND with curTargetHWND := 0 } else s) ∧
    (if s.curTargetHWND ≠ 0 then
      { s.send .leave s.curTargetHWND with curTargetHWND := 0 } else s).curTargetHWND = 0 := by
  by_cases hcur : s.curTargetHWND = 0
  · rw [if_neg (not_not.2 hcur)]
    exact ⟨h, hcur⟩
  · obtain ⟨hreal, hnot, hplace⟩ := h.leave
    rw [if_pos hcur] at hreal hnot hplace ⊢
    exact ⟨⟨hreal, hnot, ⟨hplace.rest, hplace.self⟩⟩, rfl⟩

theorem Open.enter (h : Open s) (hcur : s.curTargetHWND = 0) {target : ℕ} (htarget : target ≠ 0) :
    Open (({ s with curTargetHWND := target }.send .enter target).send .position target) := by
  have hplace : s.At 0 .outside := by
    have h' := h.place
    rwa [hcur, if_pos rfl] at h'
  have hswitch : State.At { s with curTargetHWND := target } target .outside :=
    ⟨(hplace.switch target).rest, (hplace.switch target).self⟩
  refine ⟨real_send (real_send h.real htarget) htarget, fun hd => ?_, ?_⟩
  · rcases dropped_send.1 hd with hd | hk
    · exact (dropped_send.1 hd).elim h.notDropped (by simp)
    · cases hk
  · change State.At _ target (if target = 0 then .outside else .inside)
    rw [if_neg htarget]
    exact (hswitch.send rfl).send rfl

theorem Open.changeTarget (h : Open s) (hwndNewTarget : ℕ) :
    Open (s.changeTarget hwndNewTarget) ∧
      (s.changeTarget hwndNewTarget).curTargetHWND = hwndNewTarget := by
  obtain ⟨hleft, hcur⟩ := h.left
  unfold State.changeTarget
  by_cases hnew : hwndNewTarget = 0
  · rw [if_neg (not_not.2 hnew)]
    exact ⟨hleft, hcur.trans hnew.symm⟩
  · rw [if_pos hnew]
    exact ⟨hleft.enter hcur hnew, rfl⟩

/-! ### What the steps change -/

theorem changeTarget_curTargetHWND (s : State) (hwndNewTarget : ℕ) :
    (s.changeTarget hwndNewTarget).curTargetHWND = hwndNewTarget := by
  unfold State.changeTarget
  by_cases hnew : hwndNewTarget = 0
  · rw [if_neg (not_not.2 hnew)]
    by_cases hcur : s.curTargetHWND = 0
    · rw [if_neg (not_not.2 hcur), hcur, hnew]
    · rw [if_pos hcur, hnew]
  · rw [if_pos hnew]
    rfl

theorem answered_of_not {hwndNewTarget : ℕ} {returnValue : HResult}
    (h : ¬ (s.curTargetHWND ≠ hwndNewTarget ∧ returnValue ≠ .cancel)) :
    s.answered hwndNewTarget returnValue =
      { s with returnValue := some returnValue, pc := .loop } := if_neg h

theorem answered_of_changed {hwndNewTarget : ℕ} {returnValue : HResult}
    (h : s.curTargetHWND ≠ hwndNewTarget ∧ returnValue ≠ .cancel) :
    s.answered hwndNewTarget returnValue =
      State.changeTarget { s with returnValue := some returnValue, pc := .loop } hwndNewTarget :=
  if_pos h

/-- The answer is noted; only the messages and the target may change besides. -/
theorem answered_frame (s : State) (hwndNewTarget : ℕ) (returnValue : HResult) :
    (s.answered hwndNewTarget returnValue).returnValue = some returnValue ∧
    (s.answered hwndNewTarget returnValue).pc = .loop ∧
    (s.answered hwndNewTarget returnValue).dwEffect = s.dwEffect ∧
    (s.answered hwndNewTarget returnValue).latest = s.latest ∧
    (s.answered hwndNewTarget returnValue).dragEnded = s.dragEnded ∧
    (s.answered hwndNewTarget returnValue).trackingDone = s.trackingDone := by
  unfold State.answered State.changeTarget State.send
  dsimp only
  split_ifs <;> exact ⟨rfl, rfl, rfl, rfl, rfl, rfl⟩

theorem answered_curTargetHWND (s : State) (hwndNewTarget : ℕ) (returnValue : HResult)
    (hr : returnValue ≠ .cancel) :
    (s.answered hwndNewTarget returnValue).curTargetHWND = hwndNewTarget := by
  unfold State.answered
  dsimp only
  by_cases hcur : s.curTargetHWND = hwndNewTarget
  · rw [if_neg fun h => h.1 hcur]
    exact hcur
  · rw [if_pos ⟨hcur, hr⟩]
    exact changeTarget_curTargetHWND _ _

theorem Open.answered (h : Open s) (hwndNewTarget : ℕ) (returnValue : HResult) :
    Open (s.answered hwndNewTarget returnValue) := by
  have h' : Open { s with returnValue := some returnValue, pc := .loop } := h.congr rfl rfl
  unfold State.answered
  dsimp only
  split_ifs
  · exact (h'.changeTarget hwndNewTarget).1
  · exact h'

theorem dragEnd_of_not (h : ¬ (s.returnValue = some .drop ∧ s.dwEffect ≠ 0)) :
    s.dragEnd = { s with trackingDone := true, dwEffect := 0, dragEnded := true } := if_neg h

theorem dragEnd_of_drop (h : s.returnValue = some .drop ∧ s.dwEffect ≠ 0) :
    s.dragEnd = { s.send .drop s.curTargetHWND with dragEnded := true } := if_pos h

theorem Open.drop (h : Open s) (hcur : s.curTargetHWND ≠ 0)
    (haccepted : s.latest s.curTargetHWND = true) :
    Closed { s.send .drop s.curTargetHWND with dragEnded := true } := by
  have hplace := h.place
  rw [if_neg hcur] at hplace
  have hsent : State.At (s.send .drop s.curTargetHWND) s.curTargetHWND .dropped := hplace.send rfl
  refine ⟨real_send h.real hcur, fun m hm hk => ?_, ?_, hcur, ⟨hsent.rest, hsent.self⟩⟩
  · rcases mem_sent_send.1 hm with hm | rfl
    · exact absurd hk (drops_of_not_dropped h.notDropped hm)
    · exact ⟨rfl, haccepted⟩
  · exact dropped_send.2 (.inr rfl)

theorem Open.queryContinueDrag (h : Open s) {hwndNewTarget : ℕ} {returnValue : HResult}
    (hends : s.dragEnded = true → s.trackingDone = true)
    (hO : returnValue = .drop ∧ s.dwEffect ≠ 0 →
      hwndNewTarget ≠ 0 ∧ s.latest hwndNewTarget = true) :
    Inv (s.queryContinueDrag hwndNewTarget returnValue) := by
  obtain ⟨hret, hpc, heffect, hlatest, hended, hdone⟩ :=
    answered_frame s hwndNewTarget returnValue
  have hpc' : (s.answered hwndNewTarget returnValue).pc ≠ .returned := by rw [hpc]; decide
  have hO' := h.answered hwndNewTarget returnValue
  rw [← hended, ← hdone] at hends
  unfold State.queryContinueDrag
  dsimp only
  by_cases hok : returnValue = .ok
  · rw [if_pos hok]
    by_cases hcur : (s.answered hwndNewTarget returnValue).curTargetHWND = 0
    · rw [if_neg (not_not.2 hcur), State.giveFeedback, if_pos hcur]
      exact .before (hO'.congr rfl rfl) hpc' hends
    · rw [if_pos hcur]
      exact .before (hO'.position hcur) hpc' hends
  · rw [if_neg hok]
    by_cases hdrop : returnValue = .drop ∧ s.dwEffect ≠ 0
    · obtain ⟨hnew, haccepted⟩ := hO hdrop
      have hcur := answered_curTargetHWND s hwndNewTarget returnValue
        (by rw [hdrop.1]; decide)
      rw [dragEnd_of_drop ⟨by rw [hret, hdrop.1], by rw [heffect]; exact hdrop.2⟩]
      refine .after (hO'.drop (by rwa [hcur]) ?_) hpc'
      rw [hcur, hlatest]
      exact haccepted
    · rw [dragEnd_of_not fun hd =>
        hdrop ⟨Option.some.inj (hret ▸ hd.1), heffect ▸ hd.2⟩]
      exact .before (hO'.congr rfl rfl) hpc' fun _ => rfl

theorem Closed.queryContinueDrag (h : Closed s) {hwndNewTarget : ℕ} {returnValue : HResult}
    (hO : returnValue = .cancel ∨
      returnValue = .drop ∧ hwndNewTarget = s.curTargetHWND ∧ s.dwEffect = 0) :
    Inv (s.queryContinueDrag hwndNewTarget returnValue) := by
  have hsame : s.answered hwndNewTarget returnValue =
      { s with returnValue := some returnValue, pc := .loop } := by
    refine answered_of_not fun ⟨hcur, hcancel⟩ => ?_
    rcases hO with hr | ⟨_, hnew, _⟩
    · exact hcancel hr
    · exact hcur hnew.symm
  have hno : ¬ (some returnValue = some HResult.drop ∧ s.dwEffect ≠ 0) := by
    rintro ⟨hr, heffect⟩
    rcases hO with hcancel | ⟨_, _, hzero⟩
    · rw [hcancel] at hr
      cases hr
    · exact heffect hzero
  have hok : returnValue ≠ .ok := by
    rcases hO with hr | ⟨hr, _⟩ <;> rw [hr] <;> decide
  unfold State.queryContinueDrag
  rw [hsame]
  dsimp only
  rw [if_neg hok, dragEnd_of_not hno]
  exact .after (h.congr rfl rfl) (by simp)

theorem Inv.congr (hI : Inv s) (hpc : s.pc ≠ .returned) (hsent : s'.sent = s.sent)
    (hcur : s'.curTargetHWND = s.curTargetHWND) (hpc' : s'.pc ≠ .returned)
    (hended : s'.dragEnded = s.dragEnded)
    (hdone : s.trackingDone = true → s'.trackingDone = true) : Inv s' := by
  cases hI with
  | before h _ hends =>
    exact .before (h.congr hsent hcur) hpc' fun he => hdone (hends (hended ▸ he))
  | after h _ => exact .after (h.congr hsent hcur) hpc'
  | returned _ _ _ hr => exact absurd hr hpc

theorem Inv.leaveLoop (hI : Inv s) (hpc : s.pc = .loop) (hnot : ¬ s.Dropped) :
    Inv s.leaveLoop := by
  cases hI with
  | before h _ hends =>
    obtain ⟨hreal, hnot', hplace⟩ := h.leave
    refine .returned hreal hnot' ⟨hplace.rest, hplace.self⟩ rfl ?_
    unfold State.leaveLoop State.send
    dsimp only
    split_ifs <;> exact hends
  | after h => exact absurd h.dropped hnot
  | returned _ _ _ hr =>
    rw [hpc] at hr
    cases hr

theorem giveFeedback_frame (s : State) :
    s.giveFeedback.sent = s.sent ∧ s.giveFeedback.curTargetHWND = s.curTargetHWND ∧
      s.giveFeedback.pc = s.pc ∧ s.giveFeedback.dragEnded = s.dragEnded ∧
      s.giveFeedback.trackingDone = s.trackingDone := by
  unfold State.giveFeedback
  split_ifs <;> exact ⟨rfl, rfl, rfl, rfl, rfl⟩

theorem trackStateChange_frame (s : State) (hwndNewTarget : ℕ) (hpc : s.pc ≠ .returned) :
    (s.trackStateChange hwndNewTarget).sent = s.sent ∧
      (s.trackStateChange hwndNewTarget).curTargetHWND = s.curTargetHWND ∧
      (s.trackStateChange hwndNewTarget).pc ≠ .returned ∧
      (s.trackStateChange hwndNewTarget).dragEnded = s.dragEnded ∧
      (s.trackStateChange hwndNewTarget).trackingDone = s.trackingDone := by
  unfold State.trackStateChange
  split_ifs
  · exact ⟨rfl, rfl, by simp, rfl, rfl⟩
  · exact ⟨rfl, rfl, hpc, rfl, rfl⟩

/-- **Orderly steps keep the invariant.** -/
theorem Inv.next {act : Act} (hI : Inv s) (hO : Orderly s act) (h : next s act = some s') :
    Inv s' := by
  cases act with
  | track hwndNewTarget =>
    simp only [Xdnd.next] at h
    split_ifs at h with hg
    cases h
    have hpc : s.pc ≠ .returned := fun hr => hg (.inr hr)
    obtain ⟨hsent, hcur, hpc', hended, hdone⟩ := trackStateChange_frame s hwndNewTarget hpc
    exact hI.congr hpc hsent hcur hpc' hended fun hd => hdone.trans hd
  | answer returnValue =>
    simp only [Xdnd.next] at h
    split at h
    · rename_i hwndNewTarget hpc
      cases h
      simp only [Orderly, hpc] at hO
      cases hI with
      | before hopen _ hends => exact hopen.queryContinueDrag hends hO.1
      | after hclosed => exact hclosed.queryContinueDrag (hO.2 hclosed.dropped)
      | returned _ _ _ hr =>
        rw [hpc] at hr
        cases hr
    · cases h
  | status window accept effect =>
    simp only [Xdnd.next] at h
    split_ifs at h with hg
    cases h
    have hpc : s.pc ≠ .returned := fun hr => hg (.inr hr)
    unfold State.onXdndStatus
    obtain ⟨hsent, hcur, hpc', hended, hdone⟩ := giveFeedback_frame { s with
      dwEffect := if accept then effect else 0
      latest := fun w =>
        if w = window then decide ((if accept then effect else 0) ≠ 0) else s.latest w }
    exact hI.congr hpc hsent hcur (hpc'.symm ▸ hpc) hended fun hd => hdone.trans hd
  | finish accept effect =>
    simp only [Xdnd.next] at h
    split_ifs at h with hg
    cases h
    exact hI.congr (fun hr => hg (.inr hr)) rfl rfl (fun hr => hg (.inr hr)) rfl fun _ => rfl
  | leaveLoop quit =>
    simp only [Xdnd.next] at h
    split_ifs at h with hg
    cases h
    exact hI.leaveLoop hg.1 hO

/-! ### Steps that break the protocol -/

theorem phase_send_none {w : ℕ} (h : s.phase w = none) : (s.send kind window).phase w = none := by
  rw [phase_send, h]
  split_ifs <;> rfl

theorem Closed.send_none (h : Closed s) (kind : Kind) :
    (s.send kind s.curTargetHWND).phase s.curTargetHWND = none := by
  rw [phase_send, if_pos rfl, h.place.self]
  cases kind <;> rfl

theorem changeTarget_none (h : Closed s) (hwndNewTarget : ℕ) :
    (s.changeTarget hwndNewTarget).phase s.curTargetHWND = none := by
  have hleave : State.phase { s.send .leave s.curTargetHWND with curTargetHWND := 0 }
      s.curTargetHWND = none := h.send_none .leave
  unfold State.changeTarget
  rw [if_pos h.target]
  split_ifs
  · exact phase_send_none (phase_send_none hleave)
  · exact hleave

theorem dragEnd_none {w : ℕ} (h : s.phase w = none) : s.dragEnd.phase w = none := by
  unfold State.dragEnd
  split_ifs
  · exact phase_send_none h
  · exact h

/-- **After the drop only an end of the drag that sends nothing is right.** -/
theorem Closed.orderly (h : Closed s) {hwndNewTarget : ℕ} {returnValue : HResult}
    (hS : (s.queryContinueDrag hwndNewTarget returnValue).phase s.curTargetHWND ≠ none) :
    returnValue = .cancel ∨
      returnValue = .drop ∧ hwndNewTarget = s.curTargetHWND ∧ s.dwEffect = 0 := by
  by_contra hO
  rw [not_or] at hO
  apply hS
  have h' : Closed { s with returnValue := some returnValue, pc := .loop } := h.congr rfl rfl
  unfold State.queryContinueDrag
  by_cases hcur : s.curTargetHWND = hwndNewTarget
  · -- the target gets a `Position` or a second drop
    rw [answered_of_not fun hc => hc.1 hcur]
    dsimp only
    by_cases hok : returnValue = .ok
    · rw [if_pos hok, if_pos h.target]
      exact h'.send_none .position
    · have hr : returnValue = .drop := by
        cases returnValue with
        | ok => exact absurd rfl hok
        | drop => rfl
        | cancel => exact absurd rfl hO.1
      have hdrop : some returnValue = some HResult.drop ∧ s.dwEffect ≠ 0 :=
        ⟨congrArg some hr, fun he => hO.2 ⟨hr, hcur.symm, he⟩⟩
      rw [if_neg hok, dragEnd_of_drop hdrop]
      exact h'.send_none .drop
  · -- the target gets a `Leave`
    have hnone := changeTarget_none h' hwndNewTarget
    rw [answered_of_changed ⟨hcur, hO.1⟩]
    dsimp only
    split_ifs
    · exact phase_send_none hnone
    · unfold State.giveFeedback
      split_ifs <;> exact hnone
    · exact dragEnd_none hnone

/-- **A drop that is right goes to a window that accepts it.** -/
theorem drop_orderly {hwndNewTarget : ℕ} {returnValue : HResult}
    (hS : Sound (s.queryContinueDrag hwndNewTarget returnValue))
    (hdrop : returnValue = .drop ∧ s.dwEffect ≠ 0) :
    hwndNewTarget ≠ 0 ∧ s.latest hwndNewTarget = true := by
  obtain ⟨hret, _, heffect, hlatest, _, _⟩ := answered_frame s hwndNewTarget returnValue
  have hcur := answered_curTargetHWND s hwndNewTarget returnValue
    (by rw [hdrop.1]; decide)
  have hsent : s.queryContinueDrag hwndNewTarget returnValue =
      { (s.answered hwndNewTarget returnValue).send .drop hwndNewTarget with
        dragEnded := true } := by
    unfold State.queryContinueDrag
    dsimp only
    rw [if_neg (by rw [hdrop.1]; decide), dragEnd_of_drop ⟨by rw [hret, hdrop.1], by
      rw [heffect]; exact hdrop.2⟩, hcur]
  have hm : (⟨.drop, hwndNewTarget, (s.answered hwndNewTarget returnValue).curTargetHWND,
      (s.answered hwndNewTarget returnValue).latest hwndNewTarget⟩ : Sent) ∈
      (s.queryContinueDrag hwndNewTarget returnValue).sent := by
    rw [hsent]
    exact mem_sent_send.2 (.inr rfl)
  refine ⟨hS.real _ hm, ?_⟩
  rw [← hlatest]
  exact (hS.drops _ hm rfl).2

/-- **Every step that is not orderly breaks the protocol.** -/
theorem Inv.orderly {act : Act} (hI : Inv s) (h : Xdnd.next s act = some s') (hS : Sound s') :
    Orderly s act := by
  cases act with
  | answer returnValue =>
    simp only [Xdnd.next] at h
    split at h
    · rename_i hwndNewTarget hpc
      cases h
      simp only [Orderly, hpc]
      refine ⟨drop_orderly hS, fun hd => ?_⟩
      cases hI with
      | before hopen => exact absurd hd hopen.notDropped
      | after hclosed =>
        refine hclosed.orderly fun hnone => ?_
        have hsome := hS.sessions s.curTargetHWND
        rw [hnone] at hsome
        cases hsome
      | returned _ hnot => exact absurd hd hnot
    · cases h
  | leaveLoop quit =>
    simp only [Xdnd.next] at h
    split_ifs at h
    cases h
    intro hd
    cases hI with
    | before hopen => exact hopen.notDropped hd
    | after hclosed =>
      have hsome := hS.sessions s.curTargetHWND
      unfold State.leaveLoop at hsome
      rw [if_pos hclosed.target] at hsome
      exact absurd (hclosed.send_none .leave) (Option.ne_none_iff_isSome.2 hsome)
    | returned _ hnot => exact hnot hd
  | track => trivial
  | status => trivial
  | finish => trivial

/-- **The source keeps to the protocol in the orderly runs, and only in these.** -/
theorem sessions_iff (dwEffect : ℕ) (acts : List Act) :
    lts.AllStates Sound (init dwEffect) acts ↔ lts.AllSteps Orderly (init dwEffect) acts :=
  LTS.allStates_iff_allSteps (fun _ hI => hI.sound) (fun _ _ _ hI hO h => hI.next hO h)
    (fun _ _ _ hI h hS => hI.orderly h hS) (inv_init dwEffect)

/-- **A target that accepts gets the drop, and finishes; then it is told that the drag has left
it.** -/
theorem left_after_drop :
    ∃ s, lts.run (init 0)
      [.track 5, .answer .ok, .status 5 true 1, .track 5, .answer .drop, .finish true 1,
        .leaveLoop false] = some s ∧
      s.sentTo 5 = [.enter, .position, .position, .drop, .leave] ∧ ¬ Sound s :=
  ⟨_, rfl, by decide, fun h => absurd (h.sessions 5) (by decide)⟩

end Xdnd

end Swinx
