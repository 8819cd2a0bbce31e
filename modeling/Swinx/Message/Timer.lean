import Mathlib.Algebra.Order.Ring.Int
import Swinx.LTS.Basic
import Swinx.Message.Queue

/-!
# The timers of a UI thread

`SetTimer` puts a timer into `m_lstTimer`, and `event2Msg` counts its `fireRemain` down by the time
that its caller has measured.  `peekMsg` and `waitMsg` measure from `m_tsLastMsg` and advance it, a
round of `_waitMutliObjectAndMsg` measures its own wait and does not.  So a timer can be charged for
time before it was set, and for the same time twice.

* `TimerInfo.due_charge` — what one interval does to the countdown of a timer.
* `timely_of_orderly` — orderly runs are timely.
-/

namespace Swinx

namespace Timer

open Message

/-- The `int` with the bits of `n`. -/
def asInt (n : ℤ) : ℤ := n.bmod (2 ^ 32)

/-- Max delay ms for a timer. -/
def kMaxDalayMsg : ℕ := 5

/-- `TimerInfo`, with the history of the timer. -/
structure TimerInfo where
  id : ℕ
  hWnd : ℕ
  elapse : ℕ
  fireRemain : ℕ
  proc : ℕ
  /-- The period that the last `SetTimer` has asked for. -/
  period : ℕ
  /-- When the timer was set or has fired, whichever was later. -/
  since : ℕ
  /-- The intervals that have been charged to the timer, the last one first. -/
  charged : List (ℕ × ℕ)
  deriving DecidableEq, Repr

/-- A `WM_TIMER` has been queued. -/
structure Firing where
  period : ℕ
  since : ℕ
  time : ℕ
  deriving DecidableEq, Repr

/-- The timers and the queue of a connection, and the clock. -/
structure State where
  now : ℕ
  /-- `m_tsLastMsg`, `none` for -1. -/
  tsLastMsg : Option ℕ
  /-- `ts1` of the round of `_waitMutliObjectAndMsg` in progress. -/
  ts1 : Option ℕ
  quit : Bool
  blockTimer : Bool
  lstTimer : List TimerInfo
  msgQueue : List Msg
  /-- Every firing so far. -/
  fired : List Firing

/-- What can happen. -/
inductive Act
  | tick (ms : ℕ)
  | setTimer (hWnd id uElapse proc : ℕ)
  | killTimer (hWnd id : ℕ)
  /-- Another message is queued. -/
  | postMsg (m : Msg)
  | peekMsg (gone : ℕ → Bool) (f : Filter) (bRemove : Bool)
  /-- `waitMsg`, after its wait. -/
  | waitMsg
  /-- A round of `_waitMutliObjectAndMsg` begins to wait. -/
  | waitBegin
  /-- Its wait ends.  `bMsg`: by a time-out or by `m_evtSync`, else by one of the handles. -/
  | waitEnd (bMsg : Bool)
  | setTimerBlock (bBlock : Bool)
  | quit

/-- A new connection. -/
def init : State := ⟨0, none, none, false, false, [], [], []⟩

/-- A `WM_TIMER` of the timer. -/
def IsTimerMsg (hWnd id : ℕ) (m : Msg) : Prop :=
  m.hwnd = hWnd ∧ m.message = WM_TIMER ∧ m.wParam = id

instance decidableIsTimerMsg (hWnd id : ℕ) (m : Msg) : Decidable (IsTimerMsg hWnd id m) :=
  inferInstanceAs (Decidable (_ ∧ _ ∧ _))

namespace TimerInfo

/-- `(int)it.fireRemain <= elapse2` -/
def fires (t : TimerInfo) (elapse2 : ℤ) : Bool := asInt t.fireRemain ≤ elapse2

/-- The body of the loop over the timers, for the interval from `ts1` to `ts2`. -/
def charge (t : TimerInfo) (elapse elapse2 : ℤ) (ts1 ts2 : ℕ) : TimerInfo :=
  if t.fires elapse2 then
    { t with fireRemain := t.elapse, since := ts2, charged := (ts1, ts2) :: t.charged }
  else
    { t with
      fireRemain := ((t.fireRemain - elapse) % 2 ^ 32).toNat
      charged := (ts1, ts2) :: t.charged }

/-- The message of the timer.  Nobody waits for its reply. -/
def msg (t : TimerInfo) : Msg := ⟨⟨t.hWnd, WM_TIMER, t.id, t.proc⟩, 0⟩

/-- The loop of `SetTimer` that looks for the timer. -/
def rearm (hWnd id uElapse proc now : ℕ) : List TimerInfo → Option (List TimerInfo)
  | [] => none
  | t :: ts =>
    if t.hWnd = hWnd ∧ t.id = id then
      -- `elapse` keeps the period of the first `SetTimer`
      some ({ t with fireRemain := uElapse, proc, period := uElapse, since := now } :: ts)
    else (rearm hWnd id uElapse proc now ts).map (t :: ·)

/-- A timer that is not in the list yet. -/
def new (hWnd id uElapse proc now : ℕ) : TimerInfo :=
  ⟨id, hWnd, uElapse, uElapse, proc, uElapse, now, []⟩

end TimerInfo

namespace State

/-- The id of the next timer without a window. -/
def newId (s : State) : ℕ :=
  (((s.lstTimer.filter (·.hWnd = 0)).map (·.id)).foldl max 0 + 1) % 2 ^ 64

/-- `SetTimer` -/
def setTimer (s : State) (hWnd id uElapse proc : ℕ) : State :=
  if hWnd = 0 then
    { s with lstTimer := s.lstTimer ++ [.new 0 s.newId uElapse proc s.now] }
  else
    match TimerInfo.rearm hWnd id uElapse proc s.now s.lstTimer with
    | some lstTimer => { s with lstTimer }
    | none => { s with lstTimer := s.lstTimer ++ [.new hWnd id uElapse proc s.now] }

/-- `KillTimer` -/
def killTimer (s : State) (hWnd id : ℕ) : State :=
  if s.lstTimer.any fun t => t.hWnd = hWnd ∧ t.id = id then
    { s with
      lstTimer := s.lstTimer.eraseP fun t => t.hWnd = hWnd ∧ t.id = id
      msgQueue := s.msgQueue.filter fun m => ¬ IsTimerMsg hWnd id m }
  else s

/-- The timers of `event2Msg`, charged for the time since `ts1`. -/
def event2Msg (s : State) (ts1 : ℕ) : State :=
  if s.quit ∨ s.blockTimer then s
  else
    let elapse := asInt (s.now - ts1)
    let elapse2 := asInt (elapse + min s.msgQueue.length kMaxDalayMsg)
    let due := s.lstTimer.filter (·.fires elapse2)
    { s with
      lstTimer := s.lstTimer.map fun t => t.charge elapse elapse2 ts1 s.now
      msgQueue := s.msgQueue ++ due.map (·.msg)
      fired := s.fired ++ due.map fun t => ⟨t.period, t.since, s.now⟩ }

/-- Since when the callers that use `m_tsLastMsg` charge. -/
def lastMsg (s : State) : ℕ := s.tsLastMsg.getD s.now

/-- `peekMsg` and `waitMsg` up to the end of `event2Msg`. -/
def charge (s : State) : State := { s with tsLastMsg := some s.now }.event2Msg s.lastMsg

/-- The rest of `peekMsg`: the loop over the queue. -/
def scanQueue (s : State) (gone : ℕ → Bool) (f : Filter) (bRemove : Bool) : State :=
  let r := scan gone f s.msgQueue
  { s with msgQueue := r.passed ++ (if bRemove then [] else r.found.toList) ++ r.rest }

end State

/-- One step.  While the thread waits in `_waitMutliObjectAndMsg`, only others take steps. -/
def next (s : State) : Act → Option State
  | .tick ms => some { s with now := s.now + ms }
  | .setTimer hWnd id uElapse proc =>
    if uElapse < 2 ^ 32 then some (s.setTimer hWnd id uElapse proc) else none
  | .killTimer hWnd id => some (s.killTimer hWnd id)
  | .postMsg m =>
    if m.message = WM_TIMER then none else some { s with msgQueue := s.msgQueue ++ [m] }
  | .peekMsg gone f bRemove =>
    if s.ts1.isSome then none else some (s.charge.scanQueue gone f bRemove)
  | .waitMsg => if s.ts1.isSome then none else some s.charge
  | .waitBegin => if s.ts1.isSome then none else some { s with ts1 := some s.now }
  | .waitEnd bMsg =>
    s.ts1.map fun ts1 =>
      let s : State := { s with ts1 := none }
      if bMsg then s.event2Msg ts1 else s
  | .setTimerBlock bBlock => some { s with blockTimer := bBlock }
  | .quit => some { s with quit := true }

/-- The timers as a transition system. -/
def lts : LTS State Act := ⟨next⟩

/-- The millisecond that starts at `ms` lies in the interval. -/
def Covers (ms : ℕ) (i : ℕ × ℕ) : Prop := i.1 ≤ ms ∧ ms < i.2

instance decidableCovers (ms : ℕ) (i : ℕ × ℕ) : Decidable (Covers ms i) :=
  inferInstanceAs (Decidable (_ ∧ _))

/-- **The timers keep their times.** -/
structure Timely (s : State) : Prop where
  /-- A timer fires at most 5 ms before its period has passed. -/
  notEarly : ∀ f ∈ s.fired, f.period ≤ f.time - f.since + kMaxDalayMsg
  /-- After it has fired a timer counts down the period of its last `SetTimer`. -/
  rearmed : ∀ t ∈ s.lstTimer, t.elapse = t.period
  /-- No millisecond is charged twice. -/
  once : ∀ t ∈ s.lstTimer, ∀ ms, (t.charged.countP fun i => Covers ms i) ≤ 1
  /-- `KillTimer` leaves no message of the timer. -/
  killed : ∀ hWnd id, ∀ m ∈ (s.killTimer hWnd id).msgQueue, ¬ IsTimerMsg hWnd id m

/-- An interval from `ts1` on can be charged to the timers: they were set, have last fired, and
have last been charged before. -/
def State.Clear (s : State) (ts1 : ℕ) : Prop :=
  s.quit = false → s.blockTimer = false →
    ∀ t ∈ s.lstTimer, t.since ≤ ts1 ∧ ∀ i ∈ t.charged, i.2 ≤ ts1

/-- **The good steps.**  A period fits into an `int`, a timer is set again only with the period it
has, and time is charged to a timer only from its last `SetTimer` and its last charge on. -/
def Orderly (s : State) : Act → Prop
  | .setTimer hWnd id uElapse _ =>
    uElapse < 2 ^ 31 ∧
      (hWnd ≠ 0 → ∀ t ∈ s.lstTimer, t.hWnd = hWnd → t.id = id → t.elapse = uElapse)
  | .peekMsg .. | .waitMsg => s.Clear s.lastMsg
  | .waitEnd true => ∀ ts1 ∈ s.ts1, s.Clear ts1
  | _ => True

instance decidableClear (s : State) (ts1 : ℕ) : Decidable (s.Clear ts1) :=
  inferInstanceAs (Decidable (_ → _ → _))

instance decidableOrderly (s : State) : ∀ act, Decidable (Orderly s act)
  | .setTimer .. => inferInstanceAs (Decidable (_ ∧ _))
  | .peekMsg .. | .waitMsg => decidableClear s s.lastMsg
  | .waitEnd true => inferInstanceAs (Decidable (∀ ts1 ∈ s.ts1, s.Clear ts1))
  | .tick _ | .killTimer .. | .postMsg _ | .waitBegin | .waitEnd false | .setTimerBlock _ | .quit =>
    .isTrue trivial

/-! ### One timer -/

/-- `fireRemain` is not behind at the time `ts`: the timer has its whole period left, or it is so
late that it may fire at once. -/
def TimerInfo.Due (t : TimerInfo) (ts : ℕ) : Prop :=
  t.period ≤ ts - t.since + kMaxDalayMsg ∨
    t.fireRemain < 2 ^ 31 ∧ t.period ≤ t.fireRemain + (ts - t.since)

/-- What is known of a timer in an orderly run. -/
structure TimerInfo.Inv (now : ℕ) (t : TimerInfo) : Prop where
  rearmed : t.elapse = t.period
  small : t.period < 2 ^ 31
  since_le : t.since ≤ now
  charged_le : ∀ i ∈ t.charged, i.2 ≤ now
  once : ∀ ms, (t.charged.countP fun i => Covers ms i) ≤ 1
  due : ∀ ts, t.since ≤ ts → (∀ i ∈ t.charged, i.2 ≤ ts) → t.Due ts

theorem asInt_of_lt {n : ℤ} (h0 : 0 ≤ n) (h : n < 2 ^ 31) : asInt n = n := by
  have hmod : n % (2 ^ 32 : ℕ) = n := Int.emod_eq_of_lt h0 (by omega)
  unfold asInt Int.bmod
  simp only [hmod]
  split_ifs <;> omega

namespace TimerInfo

variable {t : TimerInfo} {ts1 ts2 : ℕ} {k : ℕ}

theorem Due.mono (h : t.Due ts1) (hle : ts1 ≤ ts2) : t.Due ts2 := by
  rcases h with h | ⟨h31, h⟩
  · exact .inl (by omega)
  · exact .inr ⟨h31, by omega⟩

/-- **One interval of the countdown.**  A timer that fires has waited for its period, and one that
does not fire has not lost any of it. -/
theorem due_charge (hdue : t.Due ts1) (hsmall : t.period < 2 ^ 31) (hsince : t.since ≤ ts1)
    (hle : ts1 ≤ ts2) (hk : k ≤ kMaxDalayMsg) :
    (t.fires (asInt (asInt (ts2 - ts1) + k)) = true →
      t.period ≤ ts2 - t.since + kMaxDalayMsg) ∧
    (t.fires (asInt (asInt (ts2 - ts1) + k)) = false →
      { t with fireRemain := ((t.fireRemain - asInt (ts2 - ts1)) % 2 ^ 32).toNat }.Due ts2) := by
  have hk5 : k ≤ 5 := hk
  rcases hdue with hlate | ⟨h31, hleft⟩
  · have hlate2 : t.period ≤ ts2 - t.since + kMaxDalayMsg := by omega
    exact ⟨fun _ => hlate2, fun _ => .inl hlate2⟩
  · by_cases hlong : ts2 - ts1 + 5 < 2 ^ 31
    · rw [asInt_of_lt (n := ts2 - ts1) (by omega) (by omega), asInt_of_lt (by omega) (by omega)]
      unfold fires
      rw [asInt_of_lt (by omega) (by omega), decide_eq_true_iff, decide_eq_false_iff_not]
      refine ⟨fun hfires => ?_, fun hfires => .inr ?_⟩
      · unfold kMaxDalayMsg
        omega
      · have hmod : ((t.fireRemain - (ts2 - ts1) : ℤ) % 2 ^ 32).toNat + (ts2 - ts1) =
            t.fireRemain := by
          rw [Int.emod_eq_of_lt (by omega) (by omega)]
          omega
        constructor
        · show ((t.fireRemain - (ts2 - ts1) : ℤ) % 2 ^ 32).toNat < 2 ^ 31
          omega
        · show t.period ≤ ((t.fireRemain - (ts2 - ts1) : ℤ) % 2 ^ 32).toNat + (ts2 - t.since)
          omega
    · -- an interval this long is longer than the period, however it is measured
      have hlate : t.period ≤ ts2 - t.since + kMaxDalayMsg := by
        unfold kMaxDalayMsg
        omega
      exact ⟨fun _ => hlate, fun _ => .inl hlate⟩

theorem Inv.mono (h : t.Inv ts1) (hle : ts1 ≤ ts2) : t.Inv ts2 :=
  { h with
    since_le := h.since_le.trans hle
    charged_le := fun i hi => (h.charged_le i hi).trans hle }

theorem inv_new {uElapse : ℕ} (hWnd id proc now : ℕ) (h : uElapse < 2 ^ 31) :
    (new hWnd id uElapse proc now).Inv now where
  rearmed := rfl
  small := h
  since_le := Nat.le_refl _
  charged_le := by simp [new]
  once := by simp [new]
  due _ _ _ := .inr ⟨h, Nat.le_add_right _ _⟩

theorem Inv.rearm {now : ℕ} (h : t.Inv now) {uElapse : ℕ} (proc : ℕ) (he : t.elapse = uElapse) :
    { t with fireRemain := uElapse, proc, period := uElapse, since := now }.Inv now where
  rearmed := he
  small := he ▸ h.rearmed ▸ h.small
  since_le := Nat.le_refl _
  charged_le := h.charged_le
  once := h.once
  due _ _ _ := .inr ⟨he ▸ h.rearmed ▸ h.small, Nat.le_add_right _ _⟩

/-- An interval behind those of the history covers no millisecond twice. -/
theorem once_cons {charged : List (ℕ × ℕ)} (ts2 : ℕ) (hcl : ∀ i ∈ charged, i.2 ≤ ts1)
    (ho : ∀ ms, (charged.countP fun i => Covers ms i) ≤ 1) (ms : ℕ) :
    (((ts1, ts2) :: charged).countP fun i => Covers ms i) ≤ 1 := by
  rw [List.countP_cons]
  split_ifs with hc
  · have hnone : (charged.countP fun i => Covers ms i) = 0 := by
      rw [List.countP_eq_zero]
      intro i hi hms
      have hlt : ms < i.2 := (of_decide_eq_true hms).2
      have hge : ts1 ≤ ms := (of_decide_eq_true hc).1
      exact absurd (hcl i hi) (by omega)
    rw [hnone]
  · exact ho ms

/-- One interval charged to a timer that was set and last charged before. -/
theorem Inv.charge (h : t.Inv ts2) (hle : ts1 ≤ ts2) (hk : k ≤ kMaxDalayMsg)
    (hclear : t.since ≤ ts1 ∧ ∀ i ∈ t.charged, i.2 ≤ ts1) :
    (t.charge (asInt (ts2 - ts1)) (asInt (asInt (ts2 - ts1) + k)) ts1 ts2).Inv ts2 := by
  obtain ⟨hsince, hcl⟩ := hclear
  have hcharged : ∀ i ∈ (ts1, ts2) :: t.charged, i.2 ≤ ts2 := by
    intro i hi
    rcases List.mem_cons.1 hi with rfl | hi
    · exact Nat.le_refl _
    · exact h.charged_le i hi
  have honce := once_cons ts2 hcl h.once
  obtain ⟨-, hkeeps⟩ := due_charge (h.due ts1 hsince hcl) h.small hsince hle hk
  unfold TimerInfo.charge
  split_ifs with hf
  · exact ⟨h.rearmed, h.small, Nat.le_refl _, hcharged, honce, fun ts _ _ =>
      .inr ⟨h.rearmed ▸ h.small, h.rearmed ▸ Nat.le_add_right _ _⟩⟩
  · refine ⟨h.rearmed, h.small, h.since_le, hcharged, honce, fun ts _ hends => ?_⟩
    exact (hkeeps (by simpa using hf)).mono (hends _ List.mem_cons_self)

end TimerInfo

/-- What is known in an orderly run. -/
structure Inv (s : State) : Prop where
  notEarly : ∀ f ∈ s.fired, f.period ≤ f.time - f.since + kMaxDalayMsg
  timers : ∀ t ∈ s.lstTimer, t.Inv s.now
  /-- A queued `WM_TIMER` belongs to a timer of the list. -/
  msgs : ∀ m ∈ s.msgQueue, m.message = WM_TIMER →
    ∃ t ∈ s.lstTimer, t.hWnd = m.hwnd ∧ t.id = m.wParam
  last : ∀ ts, s.tsLastMsg = some ts → ts ≤ s.now
  wait : ∀ ts, s.ts1 = some ts → ts ≤ s.now

theorem inv_init : Inv init := by
  refine ⟨?_, ?_, ?_, ?_, ?_⟩ <;> simp [init]

namespace Inv

variable {s : State}

theorem lastMsg_le (hI : Inv s) : s.lastMsg ≤ s.now := by
  unfold State.lastMsg
  cases h : s.tsLastMsg with
  | none => exact Nat.le_refl _
  | some ts => exact hI.last ts h

theorem killed (hI : Inv s) (hWnd id : ℕ) :
    ∀ m ∈ (s.killTimer hWnd id).msgQueue, ¬ IsTimerMsg hWnd id m := by
  intro m hm
  unfold State.killTimer at hm
  split_ifs at hm with hany
  · simpa using (List.mem_filter.1 hm).2
  · rintro ⟨rfl, hw, rfl⟩
    obtain ⟨t, ht, hkey⟩ := hI.msgs m hm hw
    exact hany (List.any_eq_true.2 ⟨t, ht, decide_eq_true hkey⟩)

theorem timely (hI : Inv s) : Timely s :=
  ⟨hI.notEarly, fun t ht => (hI.timers t ht).rearmed, fun t ht => (hI.timers t ht).once, hI.killed⟩

theorem killTimer (hI : Inv s) (hWnd id : ℕ) : Inv (s.killTimer hWnd id) := by
  unfold State.killTimer
  split_ifs with hany
  · refine { hI with
      timers := fun t ht => hI.timers t (List.mem_of_mem_eraseP ht)
      msgs := fun m hm hw => ?_ }
    obtain ⟨hm, hne⟩ := List.mem_filter.1 hm
    obtain ⟨t, ht, hkey⟩ := hI.msgs m hm hw
    refine ⟨t, (List.mem_eraseP_of_neg ?_).2 ht, hkey⟩
    have hne : ¬ IsTimerMsg hWnd id m := by simpa using hne
    rw [decide_eq_true_iff, hkey.1, hkey.2]
    exact fun h => hne ⟨h.1, hw, h.2⟩
  · exact hI

theorem append (hI : Inv s) {uElapse : ℕ} (hWnd id proc : ℕ) (h : uElapse < 2 ^ 31) :
    Inv { s with lstTimer := s.lstTimer ++ [.new hWnd id uElapse proc s.now] } := by
  refine { hI with timers := fun t ht => ?_, msgs := fun m hm hw => ?_ }
  · rcases List.mem_append.1 ht with ht | ht
    · exact hI.timers t ht
    · obtain rfl := List.mem_singleton.1 ht
      exact TimerInfo.inv_new hWnd id proc s.now h
  · obtain ⟨t, ht, hkey⟩ := hI.msgs m hm hw
    exact ⟨t, List.mem_append_left _ ht, hkey⟩

end Inv

theorem TimerInfo.rearm_spec {hWnd id uElapse proc now : ℕ} {ts ts' : List TimerInfo}
    (h : TimerInfo.rearm hWnd id uElapse proc now ts = some ts') :
    ts'.map (fun t => (t.hWnd, t.id)) = ts.map (fun t => (t.hWnd, t.id)) ∧
    ∀ t' ∈ ts', t' ∈ ts ∨ ∃ t ∈ ts, t.hWnd = hWnd ∧ t.id = id ∧
      t' = { t with fireRemain := uElapse, proc, period := uElapse, since := now } := by
  induction ts generalizing ts' with
  | nil => cases h
  | cons t ts ih =>
    unfold TimerInfo.rearm at h
    split_ifs at h with hkey
    · obtain rfl := Option.some.inj h
      refine ⟨rfl, fun t' ht' => ?_⟩
      rcases List.mem_cons.1 ht' with rfl | ht'
      · exact .inr ⟨t, List.mem_cons_self, hkey.1, hkey.2, rfl⟩
      · exact .inl (List.mem_cons_of_mem _ ht')
    · obtain ⟨us, hus, rfl⟩ := Option.map_eq_some_iff.1 h
      obtain ⟨hkeys, hmem⟩ := ih hus
      refine ⟨by rw [List.map_cons, List.map_cons, hkeys], fun t' ht' => ?_⟩
      rcases List.mem_cons.1 ht' with rfl | ht'
      · exact .inl List.mem_cons_self
      · rcases hmem t' ht' with hold | ⟨u, hu, hw, hi, rfl⟩
        · exact .inl (List.mem_cons_of_mem _ hold)
        · exact .inr ⟨u, List.mem_cons_of_mem _ hu, hw, hi, rfl⟩

namespace Inv

variable {s : State}

theorem setTimer (hI : Inv s) {hWnd id uElapse proc : ℕ}
    (hgood : Orderly s (.setTimer hWnd id uElapse proc)) :
    Inv (s.setTimer hWnd id uElapse proc) := by
  obtain ⟨hsmall, hsame⟩ := hgood
  unfold State.setTimer
  split_ifs with h0
  · exact hI.append 0 _ proc hsmall
  · split
    case h_2 => exact hI.append hWnd id proc hsmall
    case h_1 lstTimer hrearm =>
      obtain ⟨hkeys, hmem⟩ := TimerInfo.rearm_spec hrearm
      refine { hI with timers := fun t' ht' => ?_, msgs := fun m hm hw => ?_ }
      · rcases hmem t' ht' with hold | ⟨t, ht, hw, hi, rfl⟩
        · exact hI.timers t' hold
        · exact (hI.timers t ht).rearm proc (hsame h0 t ht hw hi)
      · obtain ⟨t, ht, hkey⟩ := hI.msgs m hm hw
        have hold : (t.hWnd, t.id) ∈ s.lstTimer.map fun t => (t.hWnd, t.id) :=
          List.mem_map_of_mem ht
        rw [← hkeys] at hold
        obtain ⟨t', ht', heq⟩ := List.mem_map.1 hold
        obtain ⟨hw', hi'⟩ := Prod.mk.inj heq
        exact ⟨t', ht', hw'.trans hkey.1, hi'.trans hkey.2⟩

/-- **Charging a clear interval** keeps the invariant. -/
theorem event2Msg (hI : Inv s) {ts1 : ℕ} (hle : ts1 ≤ s.now) (hclear : s.Clear ts1) :
    Inv (s.event2Msg ts1) := by
  unfold State.event2Msg
  split_ifs with hoff
  · exact hI
  · rw [not_or, Bool.not_eq_true, Bool.not_eq_true] at hoff
    have hk : min s.msgQueue.length kMaxDalayMsg ≤ kMaxDalayMsg := Nat.min_le_right _ _
    have hall := hclear hoff.1 hoff.2
    refine { hI with
      notEarly := fun f hf => ?_
      timers := fun t' ht' => ?_
      msgs := fun m hm hw => ?_ }
    · rcases List.mem_append.1 hf with hf | hf
      · exact hI.notEarly f hf
      · obtain ⟨t, ht, rfl⟩ := List.mem_map.1 hf
        obtain ⟨ht, hfires⟩ := List.mem_filter.1 ht
        obtain ⟨hsince, hcl⟩ := hall t ht
        have htI := hI.timers t ht
        exact (TimerInfo.due_charge (htI.due ts1 hsince hcl) htI.small hsince hle hk).1 hfires
    · obtain ⟨t, ht, rfl⟩ := List.mem_map.1 ht'
      exact (hI.timers t ht).charge hle hk (hall t ht)
    · have hold : ∃ t ∈ s.lstTimer, t.hWnd = m.hwnd ∧ t.id = m.wParam := by
        rcases List.mem_append.1 hm with hm | hm
        · exact hI.msgs m hm hw
        · obtain ⟨t, ht, rfl⟩ := List.mem_map.1 hm
          exact ⟨t, (List.mem_filter.1 ht).1, rfl, rfl⟩
      obtain ⟨t, ht, hkey⟩ := hold
      refine ⟨_, List.mem_map_of_mem ht, ?_⟩
      unfold TimerInfo.charge
      split_ifs
      all_goals exact hkey

theorem charge (hI : Inv s) (hclear : s.Clear s.lastMsg) : Inv s.charge :=
  event2Msg (s := { s with tsLastMsg := some s.now })
    { hI with last := fun _ h => (Option.some.inj h).ge } hI.lastMsg_le hclear

theorem scanQueue (hI : Inv s) (gone : ℕ → Bool) (f : Filter) (bRemove : Bool) :
    Inv (s.scanQueue gone f bRemove) := by
  let r := scan gone f s.msgQueue
  have hsub : r.passed ++ r.found.toList ++ r.rest ⊆ s.msgQueue := (scan_sublist s.msgQueue).subset
  refine { hI with msgs := fun m hm => hI.msgs m (hsub ?_) }
  unfold State.scanQueue at hm
  cases bRemove with
  | false => exact hm
  | true =>
    simp only [if_true, List.append_nil, List.mem_append] at hm ⊢
    exact hm.imp_left .inl

end Inv

theorem Inv.next {s s' : State} {act : Act} (hI : Inv s) (hgood : Orderly s act)
    (h : Timer.next s act = some s') : Inv s' := by
  cases act with
  | tick ms =>
    obtain rfl := Option.some.inj h
    have hle : s.now ≤ s.now + ms := Nat.le_add_right _ _
    exact { hI with
      timers := fun t ht => (hI.timers t ht).mono hle
      last := fun ts hts => (hI.last ts hts).trans hle
      wait := fun ts hts => (hI.wait ts hts).trans hle }
  | setTimer hWnd id uElapse proc =>
    simp only [Timer.next, Option.ite_none_right_eq_some, Option.some.injEq] at h
    obtain ⟨-, rfl⟩ := h
    exact hI.setTimer hgood
  | killTimer hWnd id =>
    obtain rfl := Option.some.inj h
    exact hI.killTimer hWnd id
  | postMsg m =>
    simp only [Timer.next, Option.ite_none_left_eq_some, Option.some.injEq] at h
    obtain ⟨hother, rfl⟩ := h
    refine { hI with msgs := fun m' hm' hw => ?_ }
    rcases List.mem_append.1 hm' with hm' | hm'
    · exact hI.msgs m' hm' hw
    · obtain rfl := List.mem_singleton.1 hm'
      exact absurd hw hother
  | peekMsg gone f bRemove =>
    simp only [Timer.next, Option.ite_none_left_eq_some, Option.some.injEq] at h
    obtain ⟨-, rfl⟩ := h
    exact (hI.charge hgood).scanQueue gone f bRemove
  | waitMsg =>
    simp only [Timer.next, Option.ite_none_left_eq_some, Option.some.injEq] at h
    obtain ⟨-, rfl⟩ := h
    exact hI.charge hgood
  | waitBegin =>
    simp only [Timer.next, Option.ite_none_left_eq_some, Option.some.injEq] at h
    obtain ⟨-, rfl⟩ := h
    exact { hI with wait := fun _ hts => (Option.some.inj hts).ge }
  | waitEnd bMsg =>
    obtain ⟨ts1, hts1, rfl⟩ := Option.map_eq_some_iff.1 h
    have hended : Inv { s with ts1 := none } := { hI with wait := by simp }
    cases bMsg with
    | false => exact hended
    | true => exact hended.event2Msg (hI.wait ts1 hts1) (hgood ts1 hts1)
  | setTimerBlock bBlock | quit =>
    obtain rfl := Option.some.inj h
    exact { hI with }

/-- **The timers of an orderly run keep their times**, in every state of it. -/
theorem timely_of_orderly {acts : List Act} (h : lts.AllSteps Orderly init acts) :
    lts.AllStates Timely init acts :=
  LTS.allStates_of_allSteps (I := Inv) (fun _ hI => hI.timely)
    (fun _ _ _ hI hgood hn => hI.next hgood hn) inv_init h

/-- A timer that is set right after `waitMsg` fires after its period. -/
theorem timely_set_after_peek :
    lts.AllStates Timely init [.waitMsg, .setTimer 1 7 50 0, .tick 50, .waitMsg] := by
  refine timely_of_orderly ?_
  decide

/-- A handler sets a timer of 50 ms after it has worked for 100 ms.  The next `waitMsg` charges the
timer for all of them, and it fires at once. -/
theorem fires_early :
    ¬ lts.AllStates Timely init [.waitMsg, .tick 100, .setTimer 1 7 50 0, .waitMsg] := by
  intro h
  have hlast := (((h.2 _ rfl).2 _ rfl).2 _ rfl).2 _ rfl
  exact absurd (hlast.notEarly ⟨50, 100, 100⟩ (by decide)) (by decide)

end Timer

end Swinx
