import Swinx.Message.Dispatch

/-!
# Delivering the result of a dispatched message

A message that a peek has removed is in one place for the code (the queue, `m_msgPeek`,
`m_msgStack`, the results) and in one place for the program (the queue, its hands, a call, the
finished dispatches).  Both sides agree exactly as long as `AfterProcMsg` finds the message its
invocation was made for.

* `delivered_iff` — every dispatched message gets the result of its own invocation, and no reply
  another one, exactly if each `AfterProcMsg` finds the message its invocation was made for.
-/

namespace Swinx

namespace Message

namespace Deliver

/-- **Delivery**: a dispatched message has got one result, that of its invocation, before the
dispatch returned, and no reply has got anything else. -/
structure Delivered (s : State) : Prop where
  once : ∀ d ∈ s.returned, s.results.filter (fun x => x.reply = d.reply) = [d]
  own : ∀ x ∈ s.results, x ∈ s.returned

/-- `DispatchMessage` calls a procedure. -/
def State.Invokes (s : State) (fields : Fields) : Prop :=
  fields.hwnd ≠ 0 ∧
    (fields.message = WM_PAINT → (s.wnd fields.hwnd).any Wnd.visible = true) ∧
    (fields.message = UM_CALLHOOK ∨ (s.wnd fields.hwnd).any Wnd.winproc = true)

/-- **The replies are found**: every dispatch of a removed message comes to `AfterProcMsg`, and
what `AfterProcMsg` finds is the message the invocation was made for, if any. -/
def Finds (s : State) : Act → Prop
  | .dispatch id => ∀ m ∈ s.held.find? fun m => m.id = id, s.Invokes m.toFields
  | .earlyReturn _ =>
    match s.frames with
    | .proc call :: _ => call.dispatched = none
    | _ => True
  | .afterProcMsg _ =>
    match s.frames with
    | .proc call :: _ => (s.found call.fields).map Msg.id = call.dispatched
    | _ => True
  | _ => True

/-! ### Who has a message -/

/-- The message an invocation was made for. -/
def Frame.dispatched : Frame → Option ℕ
  | .proc call => call.dispatched
  | .peeking .. => none

namespace State

/-- Where the code has each message: queued, in `m_msgPeek`, on the stack, answered. -/
def custody (s : State) : List ℕ :=
  s.queue.map Msg.id ++ s.removed.toList.map Msg.id ++ s.stack.map Msg.id ++
    s.results.map Delivery.reply

/-- Where the program has each message: queued, handed out, being dispatched, dispatched. -/
def holders (s : State) : List ℕ :=
  s.queue.map Msg.id ++ s.held.map Msg.id ++ s.frames.filterMap Frame.dispatched ++
    s.returned.map Delivery.reply

/-- From `s` to `s'` no message is duplicated; the program gets the messages `ids` back. -/
structure Moves (s s' : State) (ids : List ℕ) : Prop where
  custody (i : ℕ) : s'.custody.count i ≤ s.custody.count i
  holders (i : ℕ) : s'.holders.count i ≤ s.holders.count i + ids.count i
  posted : s'.posted = s.posted

variable {s s' : State} {fields : Fields} {f : Filter} {remove : Bool}

theorem moves_recordReturn (d inv : Option ℕ) (res : ℤ) :
    s.Moves (s.recordReturn d inv res) d.toList := by
  cases d with
  | none => exact ⟨fun _ => Nat.le_refl _, fun _ => Nat.le_refl _, rfl⟩
  | some id =>
    refine ⟨fun _ => Nat.le_refl _, fun i => ?_, rfl⟩
    simp only [State.holders, State.recordReturn, List.map_append, List.count_append,
      Option.toList_some, List.map_cons, List.map_nil]
    omega

theorem moves_push (fr : Frame) (calls : ℕ) :
    s.Moves { s with frames := fr :: s.frames, calls } fr.dispatched.toList := by
  refine ⟨fun _ => Nat.le_refl _, fun i => ?_, rfl⟩
  cases hd : fr.dispatched with
  | none => simp [State.holders, hd]
  | some id =>
    simp only [State.holders, hd, List.filterMap_cons, List.count_append, List.count_cons,
      Option.toList_some, List.count_nil]
    omega

theorem moves_call (d : Option ℕ) (phase : Phase) : s.Moves (s.call fields d phase) d.toList :=
  moves_push (.proc ⟨s.calls, fields, d, phase⟩) _

theorem moves_callWindowProcPriv (d : Option ℕ) :
    s.Moves (s.callWindowProcPriv fields d) d.toList := by
  unfold State.callWindowProcPriv
  split
  · exact moves_recordReturn d _ _
  · split_ifs <;> exact moves_call d _

theorem moves_dispatchMessage (fields : Fields) (d : Option ℕ) :
    s.Moves (s.dispatchMessage fields d) d.toList := by
  unfold State.dispatchMessage
  split_ifs
  · exact moves_recordReturn d _ _
  · exact moves_recordReturn d _ _
  · exact moves_call d _
  · exact moves_recordReturn d _ _
  · exact moves_callWindowProcPriv d

theorem removed_dropPeek : s.dropPeek.removed = none := by
  unfold State.dropPeek
  split
  · assumption
  · rfl

theorem dropPeek_eq :
    s.dropPeek = { s with peek := s.dropPeek.peek, needFree := s.dropPeek.needFree } := by
  unfold State.dropPeek
  split <;> rfl

/-- What a call of `peekMsg` can do. -/
inductive Peeked (s : State) (f : Filter) (remove : Bool) : State → Prop
  | nothing (queue : List Msg) (hq : queue.Sublist s.queue) : Peeked s f remove { s with queue }
  /-- A timer: user code runs, and `peekMsg` starts again. -/
  | runs (queue : List Msg) (hq : queue.Sublist s.queue) (peek : Option Msg) (needFree : Bool)
      (hr : (if needFree then peek else none) = none) :
      Peeked s f remove
        { s with queue, peek, needFree, frames := .peeking f remove :: s.frames }
  | removes (queue : List Msg) (m : Msg)
      (hq : ∀ i, (queue.map Msg.id).count i + [m.id].count i ≤ (s.queue.map Msg.id).count i) :
      Peeked s f remove { s with queue, peek := some m, needFree := true, held := m :: s.held }
  | leaves (queue : List Msg) (m : Msg) (hq : queue.Sublist s.queue) :
      Peeked s f remove { s with queue, peek := some m, needFree := false }

theorem peeked_peekMsg (s : State) (f : Filter) (remove : Bool) :
    Peeked s f remove (s.peekMsg f remove) := by
  have hsub := @scan_sublist s.gone f s.queue
  unfold State.peekMsg
  cases hfound : (scan s.gone f s.queue).found with
  | none =>
    simp only [hfound, Option.toList_none, List.append_nil] at hsub
    simp only [hfound]
    exact .nothing _ hsub
  | some m =>
    simp only [hfound, Option.toList_some, List.append_assoc, List.singleton_append] at hsub
    have hq := (List.Sublist.append_left (List.sublist_cons_self m _) _).trans hsub
    have hcount (i : ℕ) := (hsub.map Msg.id).count_le i
    simp only [hfound]
    rw [dropPeek_eq]
    split_ifs
    · exact .runs _ hq _ _ removed_dropPeek
    · exact .runs _ hq _ _ removed_dropPeek
    · refine .removes _ m fun i => ?_
      have := hcount i
      simp only [List.map_append, List.map_cons, List.count_append, List.count_cons,
        List.count_nil] at this ⊢
      omega
    · exact .leaves _ m hsub

/-- A peek takes messages out of the queue, and hands one of them out. -/
theorem Peeked.moves (h : Peeked s f remove s') : s.Moves s' [] := by
  cases h with
  | nothing queue hq =>
    refine ⟨fun i => ?_, fun i => ?_, rfl⟩ <;>
    · have := (hq.map Msg.id).count_le i
      simp only [State.custody, State.holders, State.removed, List.count_append]
      omega
  | runs queue hq peek needFree hr =>
    refine ⟨fun i => ?_, fun i => ?_, rfl⟩ <;>
    · have := (hq.map Msg.id).count_le i
      simp only [State.custody, State.holders, State.removed, hr, List.count_append,
        Option.toList_none, List.map_nil, List.filterMap_cons, Frame.dispatched, List.count_nil]
      omega
  | removes queue m hq =>
    refine ⟨fun i => ?_, fun i => ?_, rfl⟩ <;>
    · have := hq i
      simp only [State.custody, State.holders, State.removed, List.count_append, if_true,
        Option.toList_some, List.map_cons, List.map_nil, List.count_cons, List.count_nil] at this ⊢
      omega
  | leaves queue m hq =>
    refine ⟨fun i => ?_, fun i => ?_, rfl⟩ <;>
    · have := (hq.map Msg.id).count_le i
      simp only [State.custody, State.holders, State.removed, List.count_append,
        Bool.false_eq_true, if_false, Option.toList_none, List.map_nil, List.count_nil]
      omega

theorem Moves.trans {s'' : State} {l l' : List ℕ} (h : s.Moves s' l) (h' : s'.Moves s'' l') :
    s.Moves s'' (l ++ l') := by
  refine ⟨fun i => Nat.le_trans (h'.custody i) (h.custody i), fun i => ?_, h'.posted.trans h.posted⟩
  have h₁ := h.holders i
  have h₂ := h'.holders i
  rw [List.count_append]
  omega

theorem moves_beforeProcMsg (fields : Fields) : s.Moves (s.beforeProcMsg fields) [] := by
  unfold State.beforeProcMsg
  cases hr : s.removed with
  | none => exact ⟨fun _ => Nat.le_refl _, fun _ => Nat.le_refl _, rfl⟩
  | some m =>
    simp only
    split_ifs
    · refine ⟨fun i => ?_, fun i => Nat.le_refl _, rfl⟩
      rw [State.custody, State.custody, hr]
      simp only [State.removed, List.count_append, List.map_cons, List.count_cons, List.map_nil,
        List.count_nil, Option.toList_some, Option.toList_none, Bool.false_eq_true, if_false]
      omega
    · exact ⟨fun _ => Nat.le_refl _, fun _ => Nat.le_refl _, rfl⟩

theorem found_eq_some {m : Msg} :
    s.found fields = some m ↔
      s.needFree = false ∧ ∃ stack, s.stack = m :: stack ∧ m.toFields = fields := by
  unfold State.found
  cases s.stack <;> cases s.needFree <;> simp [Option.filter_eq_some_iff]

theorem moves_afterProcMsg (inv : ℕ) (res : ℤ) : s.Moves (s.afterProcMsg fields inv res) [] := by
  unfold State.afterProcMsg
  cases hf : s.found fields with
  | none => exact ⟨fun _ => Nat.le_refl _, fun _ => Nat.le_refl _, rfl⟩
  | some m =>
    obtain ⟨-, stack, hstack, -⟩ := found_eq_some.1 hf
    refine ⟨fun i => ?_, fun i => Nat.le_refl _, rfl⟩
    simp only [State.custody, State.removed, hstack, List.tail_cons, List.map_append, List.map_cons,
      List.map_nil, List.count_append, List.count_cons, List.count_nil]
    omega

theorem Moves.pop {fr : Frame} {frames : List Frame} (hf : s.frames = fr :: frames)
    (h : Moves { s with frames } s' fr.dispatched.toList) : s.Moves s' [] := by
  refine ⟨h.custody, fun i => ?_, h.posted⟩
  have := h.holders i
  cases hd : fr.dispatched with
  | none => simpa [State.holders, hf, hd] using this
  | some id =>
    simp only [State.holders, hf, hd, List.filterMap_cons, List.count_append, List.count_cons,
      Option.toList_some, List.count_nil] at this ⊢
    omega

end State

/-- Every message is in one place, for the code and for the program, and the results are right. -/
structure Inv (s : State) : Prop extends Delivered s where
  custody (i : ℕ) : s.custody.count i ≤ if i < s.posted then 1 else 0
  holders (i : ℕ) : s.holders.count i ≤ if i < s.posted then 1 else 0

theorem inv_init (wnd : ℕ → Option Wnd) : Inv (init wnd) :=
  ⟨⟨by simp [init], by simp [init]⟩, fun i => by simp [init, State.custody, State.removed],
    fun i => by simp [init, State.holders]⟩

theorem count_filter_ne {l : List Msg} {m : Msg} (hm : m ∈ l) (i : ℕ) :
    ((l.filter (·.id ≠ m.id)).map Msg.id).count i + [m.id].count i ≤ (l.map Msg.id).count i := by
  by_cases hi : i = m.id
  · subst hi
    have h0 : ((l.filter (·.id ≠ m.id)).map Msg.id).count m.id = 0 := by
      rw [List.count_eq_zero]
      simp
    have h1 : 0 < (l.map Msg.id).count m.id := List.count_pos_iff.2 (List.mem_map_of_mem hm)
    simp only [h0, List.count_cons, List.count_nil, beq_self_eq_true, if_true]
    omega
  · have := ((List.filter_sublist (p := (·.id ≠ m.id)) (l := l)).map Msg.id).count_le i
    simpa [List.count_cons, Ne.symm hi] using this

theorem moves_next {s s' : State} {act : Act} (hp : ∀ fields, act ≠ .post fields)
    (h : next s act = some s') : s.Moves s' [] := by
  cases act with
  | post fields => exact absurd rfl (hp fields)
  | discard id =>
    obtain rfl := Option.some.inj h
    have hpeeked : State.Peeked s ⟨0, 0, 0⟩ true { s with queue := s.queue.filter (·.id ≠ id) } :=
      .nothing _ List.filter_sublist
    exact hpeeked.moves
  | setWindow hwnd w =>
    obtain rfl := Option.some.inj h
    exact ⟨fun _ => Nat.le_refl _, fun _ => Nat.le_refl _, rfl⟩
  | peekMsg f remove =>
    obtain rfl := Option.some.inj h
    exact (State.peeked_peekMsg s f remove).moves
  | peekAgain =>
    simp only [next] at h
    split at h
    case h_2 => cases h
    case h_1 f remove frames hf =>
      obtain rfl := Option.some.inj h
      exact .pop hf (State.peeked_peekMsg { s with frames } f remove).moves
  | dispatch id =>
    obtain ⟨m, hm, rfl⟩ := Option.map_eq_some_iff.1 h
    have hid : m.id = id := by simpa using List.find?_some hm
    have hmoves := State.moves_dispatchMessage (s := { s with held := s.held.filter (·.id ≠ id) })
      m.toFields (some id)
    refine ⟨hmoves.custody, fun i => ?_, hmoves.posted⟩
    have hi := hmoves.holders i
    have hheld := count_filter_ne (List.mem_of_find?_eq_some hm) i
    rw [hid] at hheld
    simp only [State.holders, List.count_append, Option.toList_some, List.count_nil] at hi hheld ⊢
    omega
  | redispatch fields =>
    obtain rfl := Option.some.inj h
    exact State.moves_dispatchMessage fields none
  | send fields =>
    obtain rfl := Option.some.inj h
    exact State.moves_callWindowProcPriv none
  | earlyReturn res =>
    simp only [next] at h
    split at h
    case h_2 => cases h
    case h_1 inv fields d frames hf =>
      obtain rfl := Option.some.inj h
      exact .pop hf (State.moves_recordReturn d _ _)
  | beforeProcMsg =>
    simp only [next] at h
    split at h
    case h_2 => cases h
    case h_1 inv fields d frames hf =>
      obtain rfl := Option.some.inj h
      have hpush := State.moves_push (s := { s with frames })
        (.proc ⟨inv, fields, d, .main⟩) s.calls
      have hboth := hpush.trans (State.moves_beforeProcMsg fields)
      rw [List.append_nil] at hboth
      exact .pop hf hboth
  | afterProcMsg res =>
    simp only [next] at h
    split at h
    case h_2 => cases h
    case h_1 inv fields d frames hf =>
      obtain rfl := Option.some.inj h
      exact .pop hf ((State.moves_afterProcMsg inv res).trans (State.moves_recordReturn d _ _))

theorem Inv.count_next {s s' : State} {act : Act} (hI : Inv s) (h : next s act = some s') (i : ℕ) :
    (s'.custody.count i ≤ if i < s'.posted then 1 else 0) ∧
      s'.holders.count i ≤ if i < s'.posted then 1 else 0 := by
  have hc := hI.custody i
  have hh := hI.holders i
  by_cases hp : ∃ fields, act = .post fields
  · obtain ⟨fields, rfl⟩ := hp
    obtain rfl := Option.some.inj h
    simp only [State.custody, State.holders, State.removed, List.map_append, List.map_cons,
      List.map_nil, List.count_append, List.count_cons, List.count_nil, beq_iff_eq] at hc hh ⊢
    split_ifs at hc hh ⊢ <;> omega
  · have hm := moves_next (fun fields he => hp ⟨fields, he⟩) h
    rw [hm.posted]
    exact ⟨Nat.le_trans (hm.custody i) hc, Nat.le_trans (hm.holders i) hh⟩

/-! ### What a step answers -/

namespace State

variable {s : State} {fields : Fields}

theorem callWindowProcPriv_cases (d : Option ℕ) (fields : Fields) :
    (∃ fields' phase, phase ≠ .main ∧
      s.callWindowProcPriv fields d = s.call fields' d phase) ∨
      s.wnd fields.hwnd = none ∧ s.callWindowProcPriv fields d = s.recordReturn d none (-1) := by
  unfold State.callWindowProcPriv
  split
  · next hw => exact .inr ⟨hw, rfl⟩
  · split_ifs <;> exact .inl ⟨_, _, by simp, rfl⟩

theorem dispatchMessage_cases (d : Option ℕ) (fields : Fields) :
    (s.Invokes fields ∧ ∃ fields' phase, phase ≠ .main ∧
      s.dispatchMessage fields d = s.call fields' d phase) ∨
      ¬ s.Invokes fields ∧ s.dispatchMessage fields d = s.recordReturn d none 0 := by
  unfold State.dispatchMessage State.Invokes
  split_ifs with h0 hp hu hw
  · exact .inr ⟨fun h => h.1 h0, rfl⟩
  · exact .inr ⟨fun h => by simp [h.2.1 hp.1] at hp, rfl⟩
  · exact .inl ⟨⟨h0, fun h => by simpa [h] using hp, .inl hu⟩, _, _, by simp, rfl⟩
  · exact .inr ⟨fun h => by simp [hu, hw] at h, rfl⟩
  · refine .inl ⟨⟨h0, fun h => by simpa [h] using hp, .inr (by simpa using hw)⟩, ?_⟩
    rcases s.callWindowProcPriv_cases d fields with h | ⟨hnone, -⟩
    · exact h
    · simp [hnone] at hw

theorem afterProcMsg_results (inv : ℕ) (res : ℤ) :
    (s.afterProcMsg fields inv res).results =
      s.results ++ ((s.found fields).map fun m => ⟨m.id, some inv, res⟩).toList := by
  unfold State.afterProcMsg
  cases s.found fields <;> simp

theorem afterProcMsg_returned (inv : ℕ) (res : ℤ) :
    (s.afterProcMsg fields inv res).returned = s.returned := by
  unfold State.afterProcMsg
  cases s.found fields <;> rfl

theorem recordReturn_results (d inv : Option ℕ) (res : ℤ) :
    (s.recordReturn d inv res).results = s.results := by
  cases d <;> rfl

theorem recordReturn_returned (d inv : Option ℕ) (res : ℤ) :
    (s.recordReturn d inv res).returned =
      s.returned ++ (d.map fun id => ⟨id, inv, res⟩).toList := by
  cases d <;> simp [recordReturn]

/-- The answers of a step: `given` is the result set in it, `due` the dispatch that returns. -/
structure Answers (s s' : State) (given due : Option Delivery) : Prop where
  results : s'.results = s.results ++ given.toList
  returned : s'.returned = s.returned ++ due.toList
  /-- The result is set for a message on the stack. -/
  stack : ∀ x ∈ given, x.reply ∈ s.stack.map Msg.id
  /-- The dispatch that returns was not over. -/
  working : ∀ x ∈ due, x.reply ∈ s.held.map Msg.id ++ s.frames.filterMap Frame.dispatched

theorem Answers.silent {s' : State} (hr : s'.results = s.results) (ht : s'.returned = s.returned) :
    s.Answers s' none none :=
  ⟨by simpa using hr, by simpa using ht, by simp, by simp⟩

theorem Peeked.silent {s' : State} {f : Filter} {remove : Bool} (h : Peeked s f remove s') :
    s'.results = s.results ∧ s'.returned = s.returned := by
  cases h <;> exact ⟨rfl, rfl⟩

theorem beforeProcMsg_silent (fields : Fields) :
    (s.beforeProcMsg fields).results = s.results ∧
      (s.beforeProcMsg fields).returned = s.returned := by
  unfold State.beforeProcMsg
  split
  · exact ⟨rfl, rfl⟩
  · split_ifs <;> exact ⟨rfl, rfl⟩

theorem working_of_frames {call : Call} {frames : List Frame} (hf : s.frames = .proc call :: frames)
    {id : ℕ} (hd : call.dispatched = some id) :
    id ∈ s.held.map Msg.id ++ s.frames.filterMap Frame.dispatched := by
  simp [hf, Frame.dispatched, hd]

end State

/-- **What a step answers**: the replies are found in it exactly if it gives the result that is
due. -/
theorem answers_next {s s' : State} {act : Act} (h : next s act = some s') :
    ∃ given due, s.Answers s' given due ∧ (Finds s act ↔ given = due) := by
  cases act with
  | post fields | discard id | setWindow hwnd w =>
    obtain rfl := Option.some.inj h
    exact ⟨none, none, .silent rfl rfl, by simp [Finds]⟩
  | peekMsg f remove =>
    obtain rfl := Option.some.inj h
    have hp := (s.peeked_peekMsg f remove).silent
    exact ⟨none, none, .silent hp.1 hp.2, by simp [Finds]⟩
  | peekAgain =>
    simp only [next] at h
    split at h
    case h_2 => cases h
    case h_1 f remove frames hf =>
      obtain rfl := Option.some.inj h
      have hp := (State.peeked_peekMsg { s with frames } f remove).silent
      exact ⟨none, none, .silent hp.1 hp.2, by simp [Finds]⟩
  | dispatch id =>
    obtain ⟨m, hm, rfl⟩ := Option.map_eq_some_iff.1 h
    have hid : m.id = id := by simpa using List.find?_some hm
    have hfinds : Finds s (.dispatch id) ↔ s.Invokes m.toFields := by simp [Finds, hm]
    rw [hfinds]
    rcases State.dispatchMessage_cases (s := { s with held := s.held.filter (·.id ≠ id) })
      (some id) m.toFields with ⟨hi, fields, phase, -, he⟩ | ⟨hi, he⟩
    · rw [he]
      exact ⟨none, none, .silent rfl rfl, iff_of_true hi rfl⟩
    · rw [he]
      refine ⟨none, some ⟨id, none, 0⟩, ⟨by simp [State.recordReturn], rfl, by simp, ?_⟩,
        iff_of_false hi (by simp)⟩
      simpa using .inl ⟨m, List.mem_of_find?_eq_some hm, hid⟩
  | redispatch fields =>
    obtain rfl := Option.some.inj h
    refine ⟨none, none, ?_, by simp [Finds]⟩
    rcases s.dispatchMessage_cases none fields with ⟨-, fields', phase, -, he⟩ | ⟨-, he⟩ <;>
    · rw [he]
      exact .silent rfl rfl
  | send fields =>
    obtain rfl := Option.some.inj h
    refine ⟨none, none, ?_, by simp [Finds]⟩
    rcases s.callWindowProcPriv_cases none fields with ⟨fields', phase, -, he⟩ | ⟨-, he⟩ <;>
    · rw [he]
      exact .silent rfl rfl
  | earlyReturn res =>
    simp only [next] at h
    split at h
    case h_2 => cases h
    case h_1 inv fields d frames hf =>
      obtain rfl := Option.some.inj h
      refine ⟨none, d.map fun id => ⟨id, some inv, res⟩, ⟨?_, ?_, by simp, ?_⟩, ?_⟩
      · simp [State.recordReturn_results]
      · exact State.recordReturn_returned d _ _
      · rintro x hx
        obtain ⟨id, rfl, rfl⟩ := Option.map_eq_some_iff.1 hx
        exact State.working_of_frames hf rfl
      · simp only [Finds, hf]
        cases d <;> simp
  | beforeProcMsg =>
    simp only [next] at h
    split at h
    case h_2 => cases h
    case h_1 inv fields d frames hf =>
      obtain rfl := Option.some.inj h
      have hb := State.beforeProcMsg_silent fields
        (s := { s with frames := .proc ⟨inv, fields, d, .main⟩ :: frames })
      exact ⟨none, none, .silent hb.1 hb.2, by simp [Finds]⟩
  | afterProcMsg res =>
    simp only [next] at h
    split at h
    case h_2 => cases h
    case h_1 inv fields d frames hf =>
      obtain rfl := Option.some.inj h
      refine ⟨(s.found fields).map fun m => ⟨m.id, some inv, res⟩,
        d.map fun id => ⟨id, some inv, res⟩, ⟨?_, ?_, ?_, ?_⟩, ?_⟩
      · rw [State.recordReturn_results, State.afterProcMsg_results]
        rfl
      · rw [State.recordReturn_returned, State.afterProcMsg_returned]
      · rintro x hx
        obtain ⟨m, hm, rfl⟩ := Option.map_eq_some_iff.1 hx
        obtain ⟨-, stack, hstack, -⟩ := State.found_eq_some.1 hm
        simp [hstack]
      · rintro x hx
        obtain ⟨id, rfl, rfl⟩ := Option.map_eq_some_iff.1 hx
        exact State.working_of_frames hf rfl
      · simp only [Finds, hf]
        cases s.found fields <;> cases d <;> simp

namespace Inv

variable {s s' : State} {given due : Option Delivery}

theorem unanswered (hI : Inv s) {i : ℕ} (hm : i ∈ s.stack.map Msg.id) :
    ∀ x ∈ s.results, x.reply ≠ i := by
  rintro x hx rfl
  have h1 := List.count_pos_iff.2 hm
  have h2 := List.count_pos_iff.2 (List.mem_map_of_mem (f := Delivery.reply) hx)
  have h3 := hI.custody x.reply
  simp only [State.custody, List.count_append] at h3
  split_ifs at h3 <;> omega

/-- A message that the program still has is not counted as dispatched. -/
theorem not_returned (hI : Inv s) {i : ℕ}
    (hm : i ∈ s.held.map Msg.id ++ s.frames.filterMap Frame.dispatched) :
    ∀ x ∈ s.returned, x.reply ≠ i := by
  rintro x hx rfl
  have h1 := List.count_pos_iff.2 hm
  have h2 := List.count_pos_iff.2 (List.mem_map_of_mem (f := Delivery.reply) hx)
  have h3 := hI.holders x.reply
  simp only [State.holders, List.count_append] at h1 h3
  split_ifs at h3 <;> omega

theorem mem_results (hI : Delivered s) {d : Delivery} (hd : d ∈ s.returned) : d ∈ s.results := by
  have : d ∈ s.results.filter fun x => x.reply = d.reply := by simp [hI.once d hd]
  exact (List.mem_filter.1 this).1

theorem delivered_next (hI : Inv s) (h : s.Answers s' given due) (he : given = due) :
    Delivered s' := by
  subst he
  cases given with
  | none =>
    have hr : s'.results = s.results := by simpa using h.results
    have ht : s'.returned = s.returned := by simpa using h.returned
    exact ⟨by rw [hr, ht]; exact hI.once, by rw [hr, ht]; exact hI.own⟩
  | some d =>
    have hnew := hI.unanswered (h.stack d rfl)
    refine ⟨fun e he => ?_, fun x hx => ?_⟩
    · rw [h.returned, List.mem_append] at he
      rw [h.results, List.filter_append]
      rcases he with he | he
      · have hne := hnew e (mem_results hI.toDelivered he)
        simp [hI.once e he, Ne.symm hne]
      · obtain rfl : e = d := by simpa using he
        have hnil : s.results.filter (fun x => x.reply = e.reply) = [] := by
          simpa [List.filter_eq_nil_iff] using hnew
        simp [hnil]
    · rw [h.results, List.mem_append] at hx
      rw [h.returned, List.mem_append]
      exact hx.imp (hI.own x) id

/-- If it is not given, a dispatch has no result or a reply has a wrong one. -/
theorem eq_of_delivered (hI : Inv s) (h : s.Answers s' given due) (hd : Delivered s') :
    given = due := by
  have hgiven : ∀ x ∈ given, x ∈ due := by
    intro x hx
    have hmem := hd.own x (by simp [h.results, Option.mem_def.1 hx])
    rw [h.returned, List.mem_append] at hmem
    rcases hmem with hmem | hmem
    · exact absurd rfl (hI.unanswered (h.stack x hx) x (mem_results hI.toDelivered hmem))
    · simpa using hmem
  have hdue : ∀ x ∈ due, x ∈ given := by
    intro x hx
    have hmem := mem_results hd (d := x) (by simp [h.returned, Option.mem_def.1 hx])
    rw [h.results, List.mem_append] at hmem
    rcases hmem with hmem | hmem
    · exact absurd rfl (hI.not_returned (h.working x hx) x (hI.own x hmem))
    · simpa using hmem
  exact Option.ext fun x => ⟨hgiven x, hdue x⟩

end Inv

theorem Inv.next {s s' : State} {act : Act} (hI : Inv s) (hf : Finds s act)
    (hn : next s act = some s') : Inv s' := by
  obtain ⟨given, due, ha, hiff⟩ := answers_next hn
  have hcount := hI.count_next hn
  exact ⟨hI.delivered_next ha (hiff.1 hf), fun i => (hcount i).1, fun i => (hcount i).2⟩

/-- **Delivery of the results**: in every state of a run exactly the dispatched messages have a
result, that of their own invocation, if and only if in every step the replies are found. -/
theorem delivered_iff (wnd : ℕ → Option Wnd) (acts : List Act) :
    lts.AllStates Delivered (init wnd) acts ↔ lts.AllSteps Finds (init wnd) acts := by
  refine LTS.allStates_iff_allSteps (I := Inv) (fun _ h => h.toDelivered) ?_ ?_ (inv_init wnd)
  · exact fun s act s' hI hf hn => hI.next hf hn
  · intro s act s' hI hn hd
    obtain ⟨given, due, ha, hiff⟩ := answers_next hn
    exact hiff.2 (hI.eq_of_delivered ha hd)

/-- One registered window. -/
def oneWindow : ℕ → Option Wnd := fun hwnd => if hwnd = 1 then some ⟨false, true, true, 0⟩ else none

/-- A handler peeks a message and does not dispatch it. -/
def peekInHandler : List Act :=
  [.post ⟨1, 0x400 + 100, 0, 0⟩, .post ⟨1, 0x400 + 101, 0, 0⟩, .peekMsg ⟨0, 0, 0⟩ true,
    .dispatch 0, .beforeProcMsg, .peekMsg ⟨0, 0, 0⟩ true, .afterProcMsg 7]

/-- The first message has been dispatched, its handler has returned 7, and its reply has no
result. -/
theorem handler_result_lost : ∃ s,
    lts.run (init oneWindow) peekInHandler = some s ∧ s.returned = [⟨0, some 0, 7⟩] ∧
      s.results = [] ∧ ¬ Delivered s := by
  refine ⟨_, rfl, by decide, by decide, fun h => ?_⟩
  exact absurd (h.once ⟨0, some 0, 7⟩ (by decide)) (by decide)

end Deliver

end Message

end Swinx
