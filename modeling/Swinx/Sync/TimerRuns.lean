import Mathlib.Data.List.Nodup
import Mathlib.Tactic.Ring
import Swinx.Sync.TimerSched

/-!
# The scheduler of the waitable timers: runs

Every entry of the map is for a handle that exists, by a reference that the map has, a call or the
scheduler gives back; and the entry of a timer says what its latest arming asks for.  While the
scheduler has the lock nobody edits the map, so when it has gone through it nothing is due.

* `missed_eq` — the loop for missed periods ends at the first due time after `now`.
* `Inv.arm`, `Inv.disarm`, `Inv.signal` — the edits of the map.
* `sound_of_inTime` — a run of orderly steps is sound in all its states.
-/

namespace Swinx

namespace TimerSched

open Function (update update_eq_self update_of_ne update_self)

theorem toInt64_of_lt {x : ℤ} (h : -9223372036854775808 ≤ x) (h' : x < 9223372036854775808) :
    toInt64 x = x := by
  unfold toInt64
  rw [Int.bmod_eq_of_le]
  · omega
  · omega

theorem dueOf_eq {W now : ℕ} {q : ℤ} (hq : q ≤ unixEpoch)
    (hlt : q < 0 → now + -q * 100 < 9223372036854775808) :
    dueOf now q = askedDue W now q := by
  unfold dueOf askedDue
  unfold unixEpoch at hq ⊢
  by_cases hneg : q < 0
  · have := hlt hneg
    have hq : toInt64 (-q) = -q := toInt64_of_lt (by omega) (by omega)
    have hns : toInt64 (-q * 100) = -q * 100 := toInt64_of_lt (by omega) (by omega)
    rw [if_pos hneg, if_pos hneg, hq, hns, toInt64_of_lt (by omega) (by omega)]
  · rw [if_neg hneg, if_neg hneg, if_neg (by omega : ¬ 0 < q - 116444736000000000)]
    split_ifs
    · omega
    · omega

theorem catchUp_eq {period now : ℤ} (hp : 0 < period) (fuel : ℕ) {due : ℤ} (hdue : due ≤ now)
    (hfuel : now < due + fuel) :
    catchUp fuel due period now = due + ((now - due) / period + 1) * period := by
  induction fuel generalizing due with
  | zero =>
    rw [Nat.cast_zero] at hfuel
    omega
  | succ fuel ih =>
    rw [catchUp]
    split_ifs with h
    · rw [Nat.cast_succ] at hfuel
      rw [ih h (by omega)]
      have hdiv : (now - due) / period = (now - (due + period)) / period + 1 := by
        rw [← Int.add_mul_ediv_right _ _ hp.ne', one_mul]
        congr 1
        ring
      rw [hdiv]
      ring
    · have hdiv : (now - due) / period = 0 := Int.ediv_eq_zero_of_lt (by omega) (by omega)
      rw [hdiv]
      ring

/-- The loop for the missed periods ends at the first due time after `now`. -/
theorem missed_eq {due period now : ℤ} (hp : 0 < period) (hdue : due ≤ now) :
    missed due period now = due + ((now - due) / period + 1) * period :=
  catchUp_eq hp _ hdue (by omega)

theorem lt_missed {due period now : ℤ} (hp : 0 < period) (hdue : due ≤ now) :
    now < missed due period now := by
  rw [missed_eq hp hdue]
  have := Int.lt_ediv_add_one_mul_self (now - due) hp
  omega

theorem add_le_missed {due period now : ℤ} (hp : 0 < period) (hdue : due ≤ now) :
    due + period ≤ missed due period now := by
  rw [missed_eq hp hdue, add_mul, one_mul]
  have := Int.mul_nonneg (Int.ediv_nonneg (by omega : 0 ≤ now - due) hp.le) hp.le
  omega

theorem earliest_le (entries : List TimerSchedEntry) (due : ℤ) :
    earliest due entries ≤ due ∧ ∀ e ∈ entries, earliest due entries ≤ e.due := by
  induction entries generalizing due with
  | nil => exact ⟨le_rfl, by simp⟩
  | cons e es ih =>
    have hstep : earliest due (e :: es) = earliest (if e.due < due then e.due else due) es := rfl
    obtain ⟨hle, hall⟩ := ih (if e.due < due then e.due else due)
    rw [hstep]
    refine ⟨hle.trans (by split_ifs <;> omega), fun e' he' => ?_⟩
    rcases List.mem_cons.1 he' with rfl | he'
    · exact hle.trans (by split_ifs <;> omega)
    · exact hall e' he'

/-- The timer of a handle. -/
def timerOf (handles : ℕ → Option Handle) (h : ℕ) : Option ℕ := (handles h).map (·.timer)

/-- The references that are not the user's. -/
structure Refs (handles : ℕ → Option Handle) (holders : ℕ → ℕ) : Prop where
  counted : ∀ h hd, handles h = some hd →
    hd.nRef = (if hd.user then 1 else 0) + (holders h : ℤ) ∧ 0 < hd.nRef
  gone : ∀ h, handles h = none → holders h = 0

/-- The handle is there for its user. -/
def Held (handles : ℕ → Option Handle) (h : ℕ) : Prop :=
  ∃ hd, handles h = some hd ∧ hd.user = true

namespace Refs

variable {handles handles' : ℕ → Option Handle} {holders holders' : ℕ → ℕ} {h : ℕ}

theorem exists_of_pos (hr : Refs handles holders) (hh : 0 < holders h) : handles h ≠ none :=
  fun hnone => by
    have := hr.gone h hnone
    omega

theorem congr (hr : Refs handles holders) (hh : ∀ x, holders' x = holders x) :
    Refs handles holders' := by
  rwa [funext hh]

theorem take (hr : Refs handles holders) (hh : handles h ≠ none)
    (hhandles : handles' = update handles h
      ((handles h).map fun hd => { hd with nRef := hd.nRef + 1 }))
    (hholders : ∀ x, holders' x = if x = h then holders x + 1 else holders x) :
    Refs handles' holders' ∧ (∀ x, timerOf handles' x = timerOf handles x) ∧
      ∀ x, Held handles x → Held handles' x := by
  subst hhandles
  obtain ⟨hd₀, hhd₀⟩ := Option.ne_none_iff_exists'.1 hh
  refine ⟨⟨fun x hd hx => ?_, fun x hx => ?_⟩, fun x => ?_, fun x hx => ?_⟩
  · rw [hholders]
    by_cases hxh : x = h
    · subst hxh
      rw [update_self, hhd₀] at hx
      obtain rfl := Option.some.inj hx
      obtain ⟨hcount, hpos⟩ := hr.counted x hd₀ hhd₀
      rw [if_pos rfl]
      dsimp only
      omega
    · rw [update_of_ne hxh] at hx
      rw [if_neg hxh]
      exact hr.counted x hd hx
  · by_cases hxh : x = h
    · subst hxh
      simp [hhd₀] at hx
    · rw [update_of_ne hxh] at hx
      rw [hholders, if_neg hxh]
      exact hr.gone x hx
  · by_cases hxh : x = h
    · subst hxh
      simp [timerOf, hhd₀]
    · rw [timerOf, update_of_ne hxh]
      rfl
  · obtain ⟨hd, hx, huser⟩ := hx
    by_cases hxh : x = h
    · subst hxh
      exact ⟨{ hd with nRef := hd.nRef + 1 }, by rw [update_self, hx]; rfl, huser⟩
    · exact ⟨hd, by rw [update_of_ne hxh, hx], huser⟩

/-- One reference less: `u` tells if the user has his one afterwards. -/
theorem drop {hd₀ : Handle} {u : Bool} (hr : Refs handles holders) (hhd₀ : handles h = some hd₀)
    (hself : handles' h =
      if hd₀.nRef - 1 = 0 then none else some { hd₀ with user := u, nRef := hd₀.nRef - 1 })
    (hother : ∀ x, x ≠ h → handles' x = handles x)
    (hsum : hd₀.nRef - 1 = (if u then 1 else 0) + (holders' h : ℤ))
    (hrest : ∀ x, x ≠ h → holders' x = holders x) :
    Refs handles' holders' ∧ (∀ x, 0 < holders' x → timerOf handles' x = timerOf handles x) ∧
      (∀ x, (x = h → u = true) → Held handles x → Held handles' x) ∧
      ∀ x, handles' x ≠ none → handles x ≠ none := by
  obtain ⟨-, hpos⟩ := hr.counted h hd₀ hhd₀
  refine ⟨⟨fun x hd hx => ?_, fun x hx => ?_⟩, fun x hx => ?_, fun x hxu hx => ?_,
    fun x hx => ?_⟩
  · by_cases hxh : x = h
    · subst hxh
      rw [hself] at hx
      split_ifs at hx with hzero
      obtain rfl := Option.some.inj hx
      exact ⟨hsum, by dsimp only; omega⟩
    · rw [hother x hxh] at hx
      rw [hrest x hxh]
      exact hr.counted x hd hx
  · by_cases hxh : x = h
    · subst hxh
      rw [hself] at hx
      split_ifs at hx with hzero
      split_ifs at hsum <;> omega
    · rw [hother x hxh] at hx
      rw [hrest x hxh]
      exact hr.gone x hx
  · by_cases hxh : x = h
    · subst hxh
      have hne : hd₀.nRef - 1 ≠ 0 := by split_ifs at hsum <;> omega
      rw [timerOf, timerOf, hself, if_neg hne, hhd₀]
      rfl
    · rw [timerOf, hother x hxh]
      rfl
  · obtain ⟨hd, hx, huser⟩ := hx
    by_cases hxh : x = h
    · subst hxh
      rw [hxu rfl, if_pos rfl] at hsum
      exact ⟨{ hd₀ with user := u, nRef := hd₀.nRef - 1 }, by rw [hself, if_neg (by omega)],
        hxu rfl⟩
    · exact ⟨hd, by rw [hother x hxh, hx], huser⟩
  · by_cases hxh : x = h
    · rw [hxh, hhd₀]
      simp
    · rwa [← hother x hxh]

/-- A handle after `CloseHandle`. -/
def closed (handles : ℕ → Option Handle) (h : ℕ) : ℕ → Option Handle :=
  update handles h ((handles h).bind fun hd =>
    if hd.nRef - 1 = 0 then none else some { hd with nRef := hd.nRef - 1 })

theorem give (hr : Refs handles holders) (hh : 0 < holders h)
    (hholders : ∀ x, holders' x = if x = h then holders x - 1 else holders x) :
    Refs (closed handles h) holders' ∧
      (∀ x, 0 < holders' x → timerOf (closed handles h) x = timerOf handles x) ∧
      (∀ x, Held handles x → Held (closed handles h) x) ∧
      ∀ x, closed handles h x ≠ none → handles x ≠ none := by
  obtain ⟨hd, hhd⟩ := Option.ne_none_iff_exists'.1 (hr.exists_of_pos hh)
  obtain ⟨hcount, -⟩ := hr.counted h hd hhd
  have hsum : hd.nRef - 1 = (if hd.user then 1 else 0) + (holders' h : ℤ) := by
    rw [hholders, if_pos rfl]
    omega
  have hself : closed handles h h = if hd.nRef - 1 = 0 then none
      else some { hd with user := hd.user, nRef := hd.nRef - 1 } := by
    rw [closed, update_self, hhd, Option.bind_some]
  have hother : ∀ x, x ≠ h → closed handles h x = handles x := fun x hx =>
    update_of_ne hx _ _
  obtain ⟨hr', htimer, hheld, hback⟩ := hr.drop hhd hself hother hsum fun x hx => by
    rw [hholders, if_neg hx]
  refine ⟨hr', htimer, fun x hx => hheld x ?_ hx, hback⟩
  rintro rfl
  obtain ⟨hd', hhd', huser⟩ := hx
  rw [hhd, Option.some.injEq] at hhd'
  rwa [hhd']

theorem close {hd : Handle} (hr : Refs handles holders) (hhd : handles h = some hd)
    (huser : hd.user = true)
    (hhandles : handles' = closed (update handles h (some { hd with user := false })) h) :
    Refs handles' holders ∧ (∀ x, 0 < holders x → timerOf handles' x = timerOf handles x) ∧
      (∀ x, x ≠ h → Held handles x → Held handles' x) ∧
      ∀ x, handles' x ≠ none → handles x ≠ none := by
  subst hhandles
  obtain ⟨hcount, -⟩ := hr.counted h hd hhd
  rw [huser, if_pos rfl] at hcount
  generalize hc : closed (update handles h (some { hd with user := false })) h = c
  have hself : c h = if hd.nRef - 1 = 0 then none
      else some { hd with user := false, nRef := hd.nRef - 1 } := by
    rw [← hc, closed, update_self, update_self, Option.bind_some]
  have hother : ∀ x, x ≠ h → c x = handles x := fun x hx => by
    rw [← hc, closed, update_of_ne hx, update_of_ne hx]
  have hsum : hd.nRef - 1 = (if false then 1 else 0) + (holders h : ℤ) := by
    rw [if_neg (by simp)]
    omega
  obtain ⟨hr', htimer, hheld, hback⟩ := hr.drop hhd hself hother hsum fun _ _ => rfl
  exact ⟨hr', htimer, fun x hx => hheld x fun h => absurd h hx, hback⟩

end Refs

theorem closeHandle_eq (s : State) (h : ℕ) :
    s.closeHandle h = { s with handles := Refs.closed s.handles h } := by
  unfold State.closeHandle Refs.closed
  cases hh : s.handles h with
  | none =>
    have : update s.handles h none = s.handles := by
      rw [← hh, update_eq_self]
    simp [this]
  | some hd => rfl

/-- The handles that the scheduler will close. -/
def Sched.owed : Sched → List ℕ
  | .pass _ _ firedOnce | .blocked _ _ _ firedOnce | .closing firedOnce => firedOnce
  | _ => []

/-- The references of a handle that are not its user's. -/
def State.holders (s : State) (h : ℕ) : ℕ :=
  (s.s_timerSched.map (·.hTimer)).count h + s.calls.countP (Call.closes h) + s.sched.owed.count h

/-- The scheduler misses nothing. -/
structure SchedOk (s : State) : Prop where
  /-- What it has gone past is not due. -/
  passed : ∀ now todo firedOnce, s.sched = .pass now todo firedOnce →
    ∀ e ∈ s.s_timerSched, e.hTimer ∉ todo → now < e.due
  unblocked : ∀ now h todo firedOnce, s.sched ≠ .blocked now h todo firedOnce
  asleep : s.sched = .wait false → (∀ c ∈ s.calls, c.notifies = false) → s.s_timerSched = []
  sleeping : ∀ t, s.sched = .waitUntil t false → (∀ c ∈ s.calls, c.notifies = false) →
    ∀ e ∈ s.s_timerSched, t ≤ e.due

/-- The entry is what the latest arming asks for. -/
def Armed (s : State) (e : TimerSchedEntry) (timer : ℕ) (a : Arming) : Prop :=
  timerOf s.handles e.hTimer = some timer ∧ s.latest timer = some a ∧ a.next = e.due ∧
    a.period = if 0 < e.periodMs then e.periodMs * 1000000 else 0

/-- The signals of an arming are not early. -/
def Arming.Ok (a : Arming) : Prop :=
  a.due + a.signals * a.period ≤ a.next ∧ (0 < a.signals → 0 < a.period)

/-- **The invariant.** -/
structure Inv (s : State) : Prop where
  refs : Refs s.handles s.holders
  fresh : ∀ h, s.handles h ≠ none → h < s.nextHandle
  users : ∀ c ∈ s.calls, Held s.handles c.hTimer
  keys : (s.s_timerSched.map (·.hTimer)).Nodup
  /-- A timer has one entry. -/
  single : ∀ e ∈ s.s_timerSched, ∀ e' ∈ s.s_timerSched,
    timerOf s.handles e.hTimer = timerOf s.handles e'.hTimer → e.hTimer = e'.hTimer
  armed : ∀ e ∈ s.s_timerSched, ∃ timer a, Armed s e timer a
  entered : ∀ timer a, s.latest timer = some a →
    (∃ e ∈ s.s_timerSched, timerOf s.handles e.hTimer = some timer) ∧ a.Ok
  asked : ∀ h due lPeriod asked, Call.set h due lPeriod asked ∈ s.calls → due = asked
  onTime : ∀ f ∈ s.last, ∃ a, f.arming = some a ∧ a.due + a.signals * a.period ≤ f.now ∧
    (0 < a.signals → 0 < a.period)
  sched : SchedOk s

theorem inv_init : Inv init where
  refs := ⟨by simp [init], by simp [init, State.holders, Sched.owed]⟩
  fresh := by simp [init]
  users := by simp [init]
  keys := by simp [init]
  single := by simp [init]
  armed := by simp [init]
  entered := by simp [init]
  asked := by simp [init]
  onTime := by simp [init]
  sched := ⟨by simp [init], by simp [init], by simp [init], by simp [init]⟩

variable {s s' : State} {h : ℕ}

theorem State.find_eq_some {e : TimerSchedEntry} (hf : s.find h = some e) :
    e ∈ s.s_timerSched ∧ e.hTimer = h := by
  unfold State.find at hf
  have htest := List.find?_some hf
  exact ⟨List.mem_of_find?_eq_some hf, of_decide_eq_true htest⟩

theorem State.find_eq_none (hf : s.find h = none) : ∀ e ∈ s.s_timerSched, e.hTimer ≠ h := by
  simpa [State.find] using hf

theorem holders_pos {e : TimerSchedEntry} (he : e ∈ s.s_timerSched) : 0 < s.holders e.hTimer := by
  have : 0 < (s.s_timerSched.map (·.hTimer)).count e.hTimer :=
    List.count_pos_iff.2 (List.mem_map_of_mem he)
  unfold State.holders
  omega

theorem countP_goOn {c : Call} (cs : List Call) {calls : List Call} (hc : c ∈ calls)
    (p : Call → Bool) :
    (cs ++ calls.erase c).countP p + (if p c then 1 else 0) = cs.countP p + calls.countP p := by
  rw [List.countP_append, (List.perm_cons_erase hc).countP_eq p, List.countP_cons]
  omega

theorem count_filter_hTimer (entries : List TimerSchedEntry) (h x : ℕ) :
    ((entries.filter fun e => e.hTimer ≠ h).map (·.hTimer)).count x =
      if x = h then 0 else (entries.map (·.hTimer)).count x := by
  have hfilter : (entries.filter fun e => e.hTimer ≠ h).map (·.hTimer) =
      (entries.map (·.hTimer)).filter (· ≠ h) := by
    rw [List.filter_map]
    rfl
  rw [hfilter]
  split_ifs with hx
  · rw [List.count_eq_zero, hx]
    simp
  · exact List.count_filter (by simpa using hx)

namespace Inv

theorem entry_eq (hI : Inv s) {e e' : TimerSchedEntry} (he : e ∈ s.s_timerSched)
    (he' : e' ∈ s.s_timerSched) (heq : e.hTimer = e'.hTimer) : e = e' :=
  List.inj_on_of_nodup_map hI.keys he he' heq

theorem armed_of_latest (hI : Inv s) {timer : ℕ} {a : Arming} (ha : s.latest timer = some a) :
    ∃ e ∈ s.s_timerSched, Armed s e timer a := by
  obtain ⟨⟨e, he, htimer⟩, -⟩ := hI.entered timer a ha
  obtain ⟨timer', a', htimer', ha', hrest⟩ := hI.armed e he
  obtain rfl : timer = timer' := Option.some.inj (htimer.symm.trans htimer')
  obtain rfl : a = a' := Option.some.inj (ha.symm.trans ha')
  exact ⟨e, he, htimer, ha, hrest⟩

/-- **The invariant gives the property.** -/
theorem sound (hI : Inv s) : Sound s := by
  refine ⟨hI.onTime, fun now firedOnce hs timer a ha => ?_, hI.sched.unblocked,
    fun hs hc timer => ?_, fun t hs hc timer a ha => ?_, fun e he => ?_, fun h hh => ?_⟩
  · obtain ⟨e, he, -, -, hnext, -⟩ := hI.armed_of_latest ha
    rw [hnext]
    exact hI.sched.passed now [] firedOnce hs e he List.not_mem_nil
  · by_contra hne
    obtain ⟨a, ha⟩ := Option.ne_none_iff_exists'.1 hne
    obtain ⟨e, he, -⟩ := hI.armed_of_latest ha
    rw [hI.sched.asleep hs hc] at he
    cases he
  · obtain ⟨e, he, -, -, hnext, -⟩ := hI.armed_of_latest ha
    rw [hnext]
    exact hI.sched.sleeping t hs hc e he
  · exact hI.refs.exists_of_pos (holders_pos he)
  · refine hI.refs.exists_of_pos ?_
    unfold State.holders
    rcases hh with ⟨hs, hsched, hmem⟩ | ⟨c, hc, hcloses⟩
    · have : 0 < s.sched.owed.count h := List.count_pos_iff.2 (by rw [hsched]; exact hmem)
      omega
    · have : 0 < s.calls.countP (Call.closes h) := List.countP_pos_iff.2 ⟨c, hc, hcloses⟩
      omega

theorem frame (hI : Inv s) (hmap : s'.s_timerSched = s.s_timerSched)
    (hlatest : s'.latest = s.latest) (hlast : s'.last = s.last) (hrefs : Refs s'.handles s'.holders)
    (hfresh : ∀ h, s'.handles h ≠ none → h < s'.nextHandle)
    (htimer : ∀ x, 0 < s'.holders x → timerOf s'.handles x = timerOf s.handles x)
    (husers : ∀ c ∈ s'.calls, Held s'.handles c.hTimer)
    (hasked : ∀ h due lPeriod asked, Call.set h due lPeriod asked ∈ s'.calls → due = asked)
    (hsched : SchedOk s') : Inv s' := by
  have hsame : ∀ e ∈ s.s_timerSched, timerOf s'.handles e.hTimer = timerOf s.handles e.hTimer :=
    fun e he => htimer _ (holders_pos (hmap ▸ he))
  refine ⟨hrefs, hfresh, husers, hmap ▸ hI.keys, fun e he e' he' heq => ?_, fun e he => ?_,
    fun timer a ha => ?_, hasked, hlast ▸ hI.onTime, hsched⟩
  · rw [hmap] at he he'
    rw [hsame e he, hsame e' he'] at heq
    exact hI.single e he e' he' heq
  · rw [hmap] at he
    obtain ⟨timer, a, ht, ha, hrest⟩ := hI.armed e he
    exact ⟨timer, a, (hsame e he).trans ht, by rw [hlatest, ha], hrest⟩
  · rw [hlatest] at ha
    obtain ⟨⟨e, he, ht⟩, hok⟩ := hI.entered timer a ha
    exact ⟨⟨e, hmap ▸ he, (hsame e he).trans ht⟩, hok⟩

end Inv

theorem SchedOk.of_calls (hS : SchedOk s) (hmap : s'.s_timerSched = s.s_timerSched)
    (hsched : s'.sched = s.sched)
    (hcalls : (∀ c ∈ s'.calls, c.notifies = false) → ∀ c ∈ s.calls, c.notifies = false) :
    SchedOk s' := by
  refine ⟨?_, ?_, fun hs hc => ?_, fun t hs hc => ?_⟩
  · rw [hmap, hsched]
    exact hS.passed
  · rw [hsched]
    exact hS.unblocked
  · rw [hsched] at hs
    rw [hmap]
    exact hS.asleep hs (hcalls hc)
  · rw [hsched] at hs
    rw [hmap]
    exact hS.sleeping t hs (hcalls hc)

theorem SchedOk.notify (hS : SchedOk s) (hmap : s'.s_timerSched = s.s_timerSched)
    (hsched : s'.sched = s.notify.sched) : SchedOk s' := by
  unfold State.notify at hsched
  refine ⟨fun now todo firedOnce hs => ?_, fun now h todo firedOnce hs => ?_, fun hs _ => ?_,
    fun t hs _ => ?_⟩
  · rw [hmap]
    refine hS.passed now todo firedOnce ?_
    rw [hs] at hsched
    cases hc : s.sched <;> simp_all
  · refine hS.unblocked now h todo firedOnce ?_
    rw [hs] at hsched
    cases hc : s.sched <;> simp_all
  · rw [hs] at hsched
    cases hc : s.sched <;> simp_all
  · rw [hs] at hsched
    cases hc : s.sched <;> simp_all

theorem mem_goOn {c d : Call} {cs : List Call} (hd : d ∈ (s.goOn c cs).calls) :
    d ∈ cs ∨ d ∈ s.calls := by
  rcases List.mem_append.1 hd with hd | hd
  · exact Or.inl hd
  · exact Or.inr (List.mem_of_mem_erase hd)

namespace Inv

theorem newHandle (hI : Inv s) (timer : ℕ) : Inv (s.newHandle timer) := by
  have hnone : s.handles s.nextHandle = none := by
    by_contra hne
    exact lt_irrefl _ (hI.fresh _ hne)
  have hold : ∀ x, x ≠ s.nextHandle → (s.newHandle timer).handles x = s.handles x := fun x hx =>
    update_of_ne hx _ _
  have hnew : (s.newHandle timer).handles s.nextHandle = some ⟨timer, 1, true⟩ :=
    update_self _ _ _
  have hzero : s.holders s.nextHandle = 0 := hI.refs.gone _ hnone
  refine hI.frame rfl rfl rfl ⟨fun x hd hx => ?_, fun x hx => ?_⟩ (fun x hx => ?_)
    (fun x hx => ?_) (fun c hc => ?_) hI.asked (hI.sched.of_calls rfl rfl id)
  · by_cases hxn : x = s.nextHandle
    · subst hxn
      rw [hnew, Option.some.injEq] at hx
      subst hx
      refine ⟨?_, Int.one_pos⟩
      show (1 : ℤ) = (if true then 1 else 0) + (s.holders s.nextHandle : ℤ)
      rw [hzero]
      rfl
    · rw [hold x hxn] at hx
      exact hI.refs.counted x hd hx
  · by_cases hxn : x = s.nextHandle
    · subst hxn
      rw [hnew] at hx
      cases hx
    · rw [hold x hxn] at hx
      exact hI.refs.gone x hx
  · show x < s.nextHandle + 1
    by_cases hxn : x = s.nextHandle
    · omega
    · rw [hold x hxn] at hx
      have := hI.fresh x hx
      omega
  · have hxn : x ≠ s.nextHandle := by
      rintro rfl
      rw [show (s.newHandle timer).holders s.nextHandle = 0 from hzero] at hx
      omega
    rw [timerOf, hold x hxn]
    rfl
  · obtain ⟨hd, hhd, huser⟩ := hI.users c hc
    have hxn : c.hTimer ≠ s.nextHandle := fun heq => by simp [heq, hnone] at hhd
    exact ⟨hd, by rw [hold _ hxn, hhd], huser⟩

theorem close (hI : Inv s) {hd : Handle} (hhd : s.handles h = some hd) (huser : hd.user = true)
    (hcalls : ∀ c ∈ s.calls, c.hTimer ≠ h) :
    Inv (State.closeHandle
      { s with handles := update s.handles h (some { hd with user := false }) } h) := by
  rw [closeHandle_eq]
  obtain ⟨hrefs, htimer, hheld, hback⟩ := hI.refs.close hhd huser rfl
  exact hI.frame rfl rfl rfl hrefs (fun x hx => hI.fresh x (hback x hx)) htimer
    (fun c hc => hheld _ (hcalls c hc) (hI.users c hc)) hI.asked (hI.sched.of_calls rfl rfl id)

theorem call (hI : Inv s) {c : Call} (hheld : Held s.handles c.hTimer)
    (hcloses : ∀ h, c.closes h = false)
    (hasked : ∀ h due lPeriod asked, c = .set h due lPeriod asked → due = asked) :
    Inv { s with calls := c :: s.calls } := by
  have hholders : ∀ x, State.holders { s with calls := c :: s.calls } x = s.holders x := fun x => by
    unfold State.holders
    rw [List.countP_cons, hcloses]
    rfl
  refine hI.frame rfl rfl rfl (hI.refs.congr hholders) hI.fresh (fun _ _ => rfl)
    (fun d hd => ?_) (fun h due lPeriod asked hd => ?_)
    (hI.sched.of_calls rfl rfl fun hc d hd => ?_)
  · rcases List.mem_cons.1 hd with rfl | hd
    · exact hheld
    · exact hI.users d hd
  · rcases List.mem_cons.1 hd with heq | hd
    · exact hasked h due lPeriod asked heq.symm
    · exact hI.asked h due lPeriod asked hd
  · exact hc d (List.mem_cons_of_mem c hd)

theorem goOn (hI : Inv s) {c : Call} {cs : List Call} (hc : c ∈ s.calls)
    (hcs : ∀ d ∈ cs, d.hTimer = c.hTimer)
    (hcloses : ∀ h, cs.countP (Call.closes h) = if c.closes h then 1 else 0)
    (hset : ∀ h due lPeriod asked, Call.set h due lPeriod asked ∉ cs)
    (hsched : SchedOk (s.goOn c cs)) : Inv (s.goOn c cs) := by
  have hholders : ∀ x, (s.goOn c cs).holders x = s.holders x := fun x => by
    have := countP_goOn cs hc (Call.closes x)
    rw [hcloses] at this
    unfold State.holders
    show _ + (cs ++ s.calls.erase c).countP (Call.closes x) + _ = _
    have hsame : (cs ++ s.calls.erase c).countP (Call.closes x) =
        s.calls.countP (Call.closes x) := by omega
    rw [hsame]
    rfl
  refine hI.frame rfl rfl rfl (hI.refs.congr hholders) hI.fresh (fun _ _ => rfl)
    (fun d hd => ?_) (fun h due lPeriod asked hd => ?_) hsched
  · rcases mem_goOn hd with hd | hd
    · rw [hcs d hd]
      exact hI.users c hc
    · exact hI.users d hd
  · rcases mem_goOn hd with hd | hd
    · exact absurd hd (hset h due lPeriod asked)
    · exact hI.asked h due lPeriod asked hd

theorem notify (hI : Inv s) {c : Call} {cs : List Call} (hc : c ∈ s.calls)
    (hcs : ∀ d ∈ cs, d.hTimer = c.hTimer)
    (hcloses : ∀ h, cs.countP (Call.closes h) = if c.closes h then 1 else 0)
    (hset : ∀ h due lPeriod asked, Call.set h due lPeriod asked ∉ cs) :
    Inv (s.notify.goOn c cs) := by
  have howed : s.notify.sched.owed = s.sched.owed := by
    unfold State.notify
    cases hs : s.sched <;> simp [Sched.owed]
  have hnotified : Inv s.notify := by
    have hholders : ∀ x, s.notify.holders x = s.holders x := fun x => by
      unfold State.holders
      rw [howed]
      rfl
    exact hI.frame rfl rfl rfl (hI.refs.congr hholders) hI.fresh (fun _ _ => rfl) hI.users hI.asked
      (hI.sched.notify rfl rfl)
  exact hnotified.goOn hc hcs hcloses hset (hI.sched.notify rfl rfl)

/-- A reference of the handle is given back: `s'` has one holder less. -/
theorem give (hI : Inv s) (hh : 0 < s.holders h) (hmap : s'.s_timerSched = s.s_timerSched)
    (hlatest : s'.latest = s.latest) (hlast : s'.last = s.last)
    (hhandles : s'.handles = Refs.closed s.handles h) (hnext : s'.nextHandle = s.nextHandle)
    (hholders : ∀ x, s'.holders x = if x = h then s.holders x - 1 else s.holders x)
    (hcalls : ∀ c ∈ s'.calls, Held s.handles c.hTimer)
    (hasked : ∀ h due lPeriod asked, Call.set h due lPeriod asked ∈ s'.calls → due = asked)
    (hsched : SchedOk s') : Inv s' := by
  obtain ⟨hrefs, htimer, hheld, hback⟩ := hI.refs.give hh hholders
  rw [← hhandles] at hrefs htimer hheld hback
  exact hI.frame hmap hlatest hlast hrefs (fun x hx => hnext ▸ hI.fresh x (hback x hx)) htimer
    (fun c hc => hheld _ (hcalls c hc)) hasked hsched

/-- `CancelWaitableTimer` gives back the scheduler's reference. -/
theorem cancelClose (hI : Inv s) (hc : .cancelClose h ∈ s.calls) :
    Inv ((s.closeHandle h).goOn (.cancelClose h) [.drain h]) := by
  rw [closeHandle_eq]
  have hcount : ∀ x, ([Call.drain h] ++ s.calls.erase (.cancelClose h)).countP (Call.closes x) +
      (if (Call.cancelClose h).closes x then 1 else 0) = s.calls.countP (Call.closes x) := by
    intro x
    rw [countP_goOn _ hc]
    simp [Call.closes]
  have hself := hcount h
  rw [if_pos (by simp [Call.closes])] at hself
  refine hI.give (h := h) ?_ rfl rfl rfl rfl rfl (fun x => ?_) (fun d hd => ?_)
    (fun h' due lPeriod asked hd => ?_) (hI.sched.of_calls rfl rfl fun hcalls d hd => ?_)
  · unfold State.holders
    omega
  · have hx := hcount x
    unfold State.holders
    show _ + ([Call.drain h] ++ s.calls.erase (.cancelClose h)).countP (Call.closes x) + _ = _
    by_cases hxh : x = h
    · subst hxh
      rw [if_pos rfl]
      show (s.s_timerSched.map _).count x + _ + s.sched.owed.count x = _
      omega
    · rw [if_neg hxh]
      rw [if_neg (by simpa [Call.closes] using Ne.symm hxh), Nat.add_zero] at hx
      rw [hx]
      rfl
  · rcases mem_goOn (s := s) hd with hd | hd
    · obtain rfl := List.mem_singleton.1 hd
      have := hI.users (.cancelClose h) hc
      exact this
    · exact hI.users d hd
  · rcases mem_goOn (s := s) hd with hd | hd
    · cases List.mem_singleton.1 hd
    · exact hI.asked h' due lPeriod asked hd
  · by_cases hdc : d = .cancelClose h
    · rw [hdc]
      rfl
    · exact hcalls d (List.mem_append_right _ ((List.mem_erase_of_ne hdc).2 hd))

theorem closing (hI : Inv s) {hs : List ℕ} (hsched : s.sched = .closing (h :: hs)) :
    Inv { s.closeHandle h with sched := .closing hs } := by
  rw [closeHandle_eq]
  have howed : ∀ x, s.sched.owed.count x = hs.count x + if h = x then 1 else 0 := fun x => by
    rw [hsched, Sched.owed, List.count_cons]
    simp
  have hself := howed h
  rw [if_pos rfl] at hself
  refine hI.give (h := h) ?_ rfl rfl rfl rfl rfl (fun x => ?_) hI.users hI.asked
    ⟨by simp, by simp, by simp, by simp⟩
  · unfold State.holders
    omega
  · have hx := howed x
    unfold State.holders
    show (s.s_timerSched.map _).count x + s.calls.countP _ + hs.count x = _
    by_cases hxh : x = h
    · subst hxh
      rw [if_pos rfl]
      omega
    · rw [if_neg hxh]
      rw [if_neg (Ne.symm hxh)] at hx
      omega

/-- The entry of the handle `h` is edited, and the arming of its timer. -/
theorem edit (hI : Inv s) {timer : ℕ} (na : Option Arming)
    (ht : timerOf s.handles h = some timer)
    (halone : ∀ e ∈ s.s_timerSched, timerOf s.handles e.hTimer = some timer → e.hTimer = h)
    (hlatest : s'.latest = update s.latest timer na)
    (hrefs : Refs s'.handles s'.holders) (hfresh : ∀ h, s'.handles h ≠ none → h < s'.nextHandle)
    (htimer : ∀ x, timerOf s'.handles x = timerOf s.handles x)
    (husers : ∀ c ∈ s'.calls, Held s'.handles c.hTimer)
    (hasked : ∀ h due lPeriod asked, Call.set h due lPeriod asked ∈ s'.calls → due = asked)
    (honTime : ∀ f ∈ s'.last, ∃ a, f.arming = some a ∧ a.due + a.signals * a.period ≤ f.now ∧
      (0 < a.signals → 0 < a.period))
    (hsched : SchedOk s') (hkeys : (s'.s_timerSched.map (·.hTimer)).Nodup)
    (hsub : ∀ e ∈ s'.s_timerSched, e.hTimer ≠ h → e ∈ s.s_timerSched)
    (hsup : ∀ e ∈ s.s_timerSched, e.hTimer ≠ h → e ∈ s'.s_timerSched)
    (hself : ∀ e ∈ s'.s_timerSched, e.hTimer = h → ∃ a, na = some a ∧ a.next = e.due ∧
      a.period = if 0 < e.periodMs then e.periodMs * 1000000 else 0)
    (hna : ∀ a, na = some a → a.Ok ∧ ∃ e ∈ s'.s_timerSched, e.hTimer = h) : Inv s' := by
  -- the other entries are for other timers
  have hother : ∀ e ∈ s'.s_timerSched, e.hTimer ≠ h → timerOf s.handles e.hTimer ≠ some timer :=
    fun e he hne heq => hne (halone e (hsub e he hne) heq)
  refine ⟨hrefs, hfresh, husers, hkeys, fun e he e' he' heq => ?_, fun e he => ?_,
    fun timer' a ha => ?_, hasked, honTime, hsched⟩
  · rw [htimer, htimer] at heq
    by_cases hh : e.hTimer = h <;> by_cases hh' : e'.hTimer = h
    · rw [hh, hh']
    · rw [hh, ht] at heq
      exact absurd heq.symm (hother e' he' hh')
    · rw [hh', ht] at heq
      exact absurd heq (hother e he hh)
    · exact hI.single e (hsub e he hh) e' (hsub e' he' hh') heq
  · by_cases hh : e.hTimer = h
    · obtain ⟨a, ha, hrest⟩ := hself e he hh
      refine ⟨timer, a, ?_, ?_, hrest⟩
      · rw [htimer, hh, ht]
      · rw [hlatest, update_self, ha]
    · obtain ⟨timer', a, htimer', ha, hrest⟩ := hI.armed e (hsub e he hh)
      have hne : timer' ≠ timer := by
        rintro rfl
        exact hother e he hh htimer'
      exact ⟨timer', a, by rw [htimer, htimer'],
        by rw [hlatest, update_of_ne hne, ha], hrest⟩
  · rw [hlatest] at ha
    by_cases hne : timer' = timer
    · subst hne
      rw [update_self] at ha
      obtain ⟨hok, e, he, hh⟩ := hna a ha
      exact ⟨⟨e, he, by rw [htimer, hh, ht]⟩, hok⟩
    · rw [update_of_ne hne] at ha
      obtain ⟨⟨e, he, htimer'⟩, hok⟩ := hI.entered timer' a ha
      have hh : e.hTimer ≠ h := fun hh => by
        rw [hh, ht, Option.some.injEq] at htimer'
        exact hne htimer'.symm
      exact ⟨⟨e, hsup e he hh, by rw [htimer, htimer']⟩, hok⟩

end Inv

theorem SchedOk.of_edit (hlocks : s.sched.locks = false) (hn : ∃ c ∈ s.calls, c.notifies = true) :
    SchedOk s := by
  have hcontra : ¬ ∀ c ∈ s.calls, c.notifies = false := fun h => by
    obtain ⟨c, hc, hn⟩ := hn
    rw [h c hc] at hn
    cases hn
  refine ⟨fun now todo firedOnce hs => ?_, fun now h todo firedOnce hs => ?_,
    fun _ h => absurd h hcontra, fun _ _ h => absurd h hcontra⟩
  · rw [hs] at hlocks
    cases hlocks
  · rw [hs] at hlocks
    cases hlocks

theorem Alone.entry (halone : Alone s h) {timer : ℕ} (ht : timerOf s.handles h = some timer) :
    ∀ e ∈ s.s_timerSched, timerOf s.handles e.hTimer = some timer → e.hTimer = h := by
  intro e he htimer
  obtain ⟨hd, hhd, rfl⟩ := Option.map_eq_some_iff.1 ht
  obtain ⟨hd', hhd', heq⟩ := Option.map_eq_some_iff.1 htimer
  exact halone hd hhd e he hd' hhd' heq

namespace Inv

theorem arm (hI : Inv s) {due lPeriod asked : ℤ} (hc : .set h due lPeriod asked ∈ s.calls)
    (halone : Alone s h) (hlocks : s.sched.locks = false) :
    Inv ((TimerSched.arm s h due lPeriod asked).goOn (.set h due lPeriod asked)
      [.setNotify h]) := by
  obtain ⟨hd, hhd, huser⟩ := hI.users _ hc
  change s.handles h = some hd at hhd
  have ht : timerOf s.handles h = some hd.timer := by rw [timerOf, hhd]; rfl
  obtain rfl := hI.asked h due lPeriod asked hc
  have hcount : ∀ x, ([Call.setNotify h] ++ s.calls.erase (.set h due lPeriod due)).countP
      (Call.closes x) = s.calls.countP (Call.closes x) := fun x => by
    have := countP_goOn [.setNotify h] hc (Call.closes x)
    simpa [Call.closes] using this
  have hcalls : ∀ d ∈ [Call.setNotify h] ++ s.calls.erase (.set h due lPeriod due),
      Held s.handles d.hTimer ∧ ∀ h due lPeriod asked, d = .set h due lPeriod asked →
        due = asked := by
    intro d hd'
    rcases mem_goOn (s := s) hd' with hd' | hd'
    · obtain rfl := List.mem_singleton.1 hd'
      exact ⟨⟨hd, hhd, huser⟩, fun _ _ _ _ h => by cases h⟩
    · exact ⟨hI.users d hd', fun _ _ _ _ h => hI.asked _ _ _ _ (h ▸ hd')⟩
  generalize hna : (⟨due, if 0 < lPeriod then lPeriod * 1000000 else 0, 0, due⟩ : Arming) = na
  have hok : na.Ok := by
    rw [← hna]
    exact ⟨by simp, by simp⟩
  unfold TimerSched.arm
  rw [hhd]
  dsimp only
  rw [hna]
  split
  · next e₀ hf =>
    obtain ⟨he₀, hh₀⟩ := State.find_eq_some (s := s) hf
    have hkeys : (s.s_timerSched.map fun e => if e.hTimer = h then
        { e with due := due, periodMs := lPeriod } else e).map (·.hTimer) =
          s.s_timerSched.map (·.hTimer) := by
      rw [List.map_map]
      refine List.map_congr_left fun e _ => ?_
      by_cases hh : e.hTimer = h <;> simp [hh]
    refine hI.edit (some na) ht (halone.entry ht) rfl
      (hI.refs.congr fun x => ?_) hI.fresh (fun _ => rfl) (fun d hd' => (hcalls d hd').1)
      (fun _ _ _ _ hd' => (hcalls _ hd').2 _ _ _ _ rfl) hI.onTime
      (SchedOk.of_edit hlocks ⟨.setNotify h, List.mem_cons_self, rfl⟩) ?_ (fun e he hne => ?_)
      (fun e he hne => ?_) (fun e he hh => ?_) fun a ha => ⟨Option.some.inj ha ▸ hok, ?_⟩
    · unfold State.holders
      show List.count x (List.map _ (List.map _ _)) +
        List.countP _ ([Call.setNotify h] ++ _) + _ = _
      rw [hkeys, hcount]
      rfl
    · show (List.map _ (List.map _ _)).Nodup
      rw [hkeys]
      exact hI.keys
    · obtain ⟨e', he', rfl⟩ := List.mem_map.1 he
      by_cases hh : e'.hTimer = h
      · rw [if_pos hh] at hne
        exact absurd hh hne
      · rwa [if_neg hh]
    · exact List.mem_map.2 ⟨e, he, if_neg hne⟩
    · obtain ⟨e', he', rfl⟩ := List.mem_map.1 he
      by_cases hh' : e'.hTimer = h
      · refine ⟨na, rfl, ?_, ?_⟩
        · rw [if_pos hh', ← hna]
        · rw [if_pos hh', ← hna]
      · rw [if_neg hh'] at hh
        exact absurd hh hh'
    · exact ⟨_, List.mem_map.2 ⟨e₀, he₀, rfl⟩, by rw [if_pos hh₀]; exact hh₀⟩
  · next hf =>
    have hfree := State.find_eq_none (s := s) hf
    obtain ⟨hrefs, htimer, hheld⟩ := hI.refs.take (h := h) (by rw [hhd]; simp) rfl fun _ => rfl
    refine hI.edit (some na) ht (halone.entry ht) rfl (hrefs.congr fun x => ?_) (fun x hx => ?_)
      htimer (fun d hd' => hheld _ (hcalls d hd').1)
      (fun _ _ _ _ hd' => (hcalls _ hd').2 _ _ _ _ rfl) hI.onTime
      (SchedOk.of_edit hlocks ⟨.setNotify h, List.mem_cons_self, rfl⟩) ?_ (fun e he hne => ?_)
      (fun e he _ => List.mem_append_left _ he) (fun e he hh => ?_)
      fun a ha => ⟨Option.some.inj ha ▸ hok, ⟨h, due, lPeriod⟩, ?_, rfl⟩
    · unfold State.holders
      show List.count x (List.map _ (s.s_timerSched ++ [_])) +
        List.countP _ ([Call.setNotify h] ++ s.calls.erase _) + s.sched.owed.count x = _
      rw [List.map_append, List.count_append, hcount]
      by_cases hxh : x = h
      · subst hxh
        rw [if_pos rfl]
        simp only [List.map_cons, List.map_nil, List.count_singleton_self]
        show _ + 1 + _ + s.sched.owed.count x = _
        omega
      · rw [if_neg hxh]
        simp only [List.map_cons, List.map_nil, List.count_singleton, beq_iff_eq, Ne.symm hxh,
          if_false]
        rfl
    · refine hI.fresh x fun hnone => hx ?_
      show update s.handles h _ x = none
      have hxh : x ≠ h := by
        rintro rfl
        rw [hhd] at hnone
        cases hnone
      rw [update_of_ne hxh, hnone]
    · show (List.map _ (s.s_timerSched ++ [_])).Nodup
      rw [List.map_append, List.nodup_append_comm]
      refine List.nodup_cons.2 ⟨fun hmem => ?_, hI.keys⟩
      obtain ⟨e, he, hh⟩ := List.mem_map.1 hmem
      exact hfree e he hh
    · rcases List.mem_append.1 he with he | he
      · exact he
      · obtain rfl := List.mem_singleton.1 he
        exact absurd rfl hne
    · rcases List.mem_append.1 he with he | he
      · exact absurd hh (hfree e he)
      · obtain rfl := List.mem_singleton.1 he
        exact ⟨na, rfl, by rw [← hna], by rw [← hna]⟩
    · exact List.mem_append_right _ (List.mem_singleton_self _)

theorem count_eq_one (hI : Inv s) {e : TimerSchedEntry} (he : e ∈ s.s_timerSched) :
    (s.s_timerSched.map (·.hTimer)).count e.hTimer = 1 :=
  List.count_eq_one_of_mem hI.keys (List.mem_map_of_mem he)

theorem keys_filter (hI : Inv s) (h : ℕ) :
    ((s.s_timerSched.filter fun e => e.hTimer ≠ h).map (·.hTimer)).Nodup :=
  hI.keys.sublist (List.filter_sublist.map _)

theorem disarm (hI : Inv s) (hc : .cancel h ∈ s.calls) (halone : Alone s h)
    (hlocks : s.sched.locks = false) :
    Inv ((TimerSched.disarm s h).goOn (.cancel h) [.cancelNotify h (s.find h).isSome]) := by
  obtain ⟨hd, hhd, huser⟩ := hI.users _ hc
  change s.handles h = some hd at hhd
  have ht : timerOf s.handles h = some hd.timer := by rw [timerOf, hhd]; rfl
  have hcount : ∀ x, ([Call.cancelNotify h (s.find h).isSome] ++ s.calls.erase (.cancel h)).countP
      (Call.closes x) = (if (s.find h).isSome ∧ x = h then 1 else 0) +
        s.calls.countP (Call.closes x) := fun x => by
    have := countP_goOn [.cancelNotify h (s.find h).isSome] hc (Call.closes x)
    cases hf : (s.find h).isSome <;> by_cases hx : x = h <;>
      simp_all [Call.closes, Ne.symm]
  unfold TimerSched.disarm
  rw [hhd]
  dsimp only
  refine hI.edit none ht (halone.entry ht) rfl (hI.refs.congr fun x => ?_) hI.fresh (fun _ => rfl)
    (fun d hd' => ?_) (fun h' due lPeriod asked hd' => ?_) hI.onTime
    (SchedOk.of_edit hlocks ⟨_, List.mem_cons_self, rfl⟩) (hI.keys_filter h) (fun e he _ => ?_)
    (fun e he hne => ?_) (fun e he hh => ?_) (fun a ha => by cases ha)
  · unfold State.holders
    show List.count x (List.map _ (List.filter _ s.s_timerSched)) +
      List.countP _ ([Call.cancelNotify h _] ++ s.calls.erase _) + s.sched.owed.count x = _
    rw [count_filter_hTimer, hcount]
    by_cases hx : x = h
    · subst hx
      cases hf : s.find x with
      | none =>
        have hzero : (s.s_timerSched.map (·.hTimer)).count x = 0 := by
          rw [List.count_eq_zero, List.mem_map]
          rintro ⟨e, he, hh⟩
          exact State.find_eq_none hf e he hh
        simp [hzero]
      | some e =>
        obtain ⟨he, hh⟩ := State.find_eq_some hf
        have hone := hI.count_eq_one he
        rw [hh] at hone
        simp only [if_true, Option.isSome_some, and_self, hone]
        omega
    · simp [hx]
  · rcases mem_goOn (s := s) hd' with hd' | hd'
    · obtain rfl := List.mem_singleton.1 hd'
      exact ⟨hd, hhd, huser⟩
    · exact hI.users d hd'
  · rcases mem_goOn (s := s) hd' with hd' | hd'
    · cases List.mem_singleton.1 hd'
    · exact hI.asked _ _ _ _ hd'
  · exact (List.mem_filter.1 he).1
  · exact List.mem_filter.2 ⟨he, by simpa using hne⟩
  · exact absurd hh (by simpa using (List.mem_filter.1 he).2)

theorem signal (hI : Inv s) {e : TimerSchedEntry} {timer : ℕ} {now : ℤ} {todo firedOnce : List ℕ}
    (he : e ∈ s.s_timerSched) (htimer : timerOf s.handles e.hTimer = some timer)
    (hdue : e.due ≤ now) (howed : s.sched.owed = firedOnce)
    (hpassed : ∀ e' ∈ s.s_timerSched, e'.hTimer ≠ e.hTimer → e'.hTimer ∉ todo → now < e'.due) :
    Inv (TimerSched.signal s e timer now todo firedOnce) := by
  obtain ⟨timer', a, htimer', ha, hnext, hperiod⟩ := hI.armed e he
  obtain rfl : timer = timer' := Option.some.inj (htimer.symm.trans htimer')
  obtain ⟨-, hle, hpos⟩ := hI.entered timer a ha
  have halone : ∀ e' ∈ s.s_timerSched, timerOf s.handles e'.hTimer = some timer →
      e'.hTimer = e.hTimer := fun e' he' ht => hI.single e' he' e he (ht.trans htimer.symm)
  have honTime : ∀ f ∈ some (⟨timer, now, s.latest timer⟩ : Signal), ∃ a, f.arming = some a ∧
      a.due + a.signals * a.period ≤ f.now ∧ (0 < a.signals → 0 < a.period) := by
    intro f hf
    obtain rfl := Option.some.inj hf
    exact ⟨a, ha, by dsimp only; omega, hpos⟩
  unfold TimerSched.signal
  rw [ha, Option.bind_some]
  by_cases hper : 0 < e.periodMs
  · rw [if_pos hper] at hperiod ⊢
    have hp : 0 < a.period := by omega
    have hsignal : a.signal now = some { a with
        signals := a.signals + 1
        next := missed e.due (e.periodMs * 1000000) now } := by
      rw [Arming.signal, if_pos hp, ← hperiod, missed_eq hp hdue, hnext]
    have hkeys : (s.s_timerSched.map fun e' => if e'.hTimer = e.hTimer then
        { e' with due := missed e.due (e.periodMs * 1000000) now } else e').map (·.hTimer) =
          s.s_timerSched.map (·.hTimer) := by
      rw [List.map_map]
      refine List.map_congr_left fun e' _ => ?_
      by_cases hh : e'.hTimer = e.hTimer <;> simp [hh]
    rw [hsignal]
    refine hI.edit (some { a with
        signals := a.signals + 1
        next := missed e.due (e.periodMs * 1000000) now }) htimer halone rfl
      (hI.refs.congr fun x => ?_) hI.fresh (fun _ => rfl) hI.users hI.asked (ha ▸ honTime)
      ⟨fun now' todo' fired' hs e' he' hnot => ?_, by simp, by simp, by simp⟩ ?_
      (fun e' he' hne => ?_) (fun e' he' hne => ?_) (fun e' he' hh => ?_) fun b hb => ?_
    · unfold State.holders
      show List.count x (List.map _ (List.map _ s.s_timerSched)) + s.calls.countP _ +
        firedOnce.count x = _
      rw [hkeys, howed]
    · obtain ⟨rfl, rfl, rfl⟩ : now = now' ∧ todo = todo' ∧ firedOnce = fired' := by simpa using hs
      obtain ⟨e'', he'', rfl⟩ := List.mem_map.1 he'
      by_cases hh : e''.hTimer = e.hTimer
      · rw [if_pos hh]
        exact lt_missed (hperiod ▸ hp) hdue
      · rw [if_neg hh] at hnot ⊢
        exact hpassed e'' he'' hh hnot
    · show (List.map _ (List.map _ s.s_timerSched)).Nodup
      rw [hkeys]
      exact hI.keys
    · obtain ⟨e'', he'', rfl⟩ := List.mem_map.1 he'
      by_cases hh : e''.hTimer = e.hTimer
      · rw [if_pos hh] at hne
        exact absurd hh hne
      · rwa [if_neg hh]
    · exact List.mem_map.2 ⟨e', he', if_neg hne⟩
    · obtain ⟨e'', he'', rfl⟩ := List.mem_map.1 he'
      by_cases hh' : e''.hTimer = e.hTimer
      · have := hI.entry_eq he'' he hh'
        subst this
        refine ⟨_, rfl, ?_, ?_⟩
        · rw [if_pos rfl]
        · simp only [if_true, if_pos hper]
          exact hperiod
      · rw [if_neg hh'] at hh
        exact absurd hh hh'
    · obtain rfl := Option.some.inj hb
      refine ⟨⟨?_, fun _ => hp⟩, _, List.mem_map.2 ⟨e, he, rfl⟩, by simp⟩
      have := add_le_missed (hperiod ▸ hp) hdue
      push_cast
      rw [add_mul, one_mul]
      omega
  · rw [if_neg hper] at hperiod ⊢
    have hsignal : a.signal now = none := by rw [Arming.signal, if_neg (by omega)]
    rw [hsignal]
    refine hI.edit none htimer halone rfl (hI.refs.congr fun x => ?_) hI.fresh (fun _ => rfl)
      hI.users hI.asked (ha ▸ honTime)
      ⟨fun now' todo' fired' hs e' he' hnot => ?_, by simp, by simp, by simp⟩
      (hI.keys_filter e.hTimer) (fun e' he' _ => (List.mem_filter.1 he').1)
      (fun e' he' hne => List.mem_filter.2 ⟨he', by simpa using hne⟩)
      (fun e' he' hh => absurd hh (by simpa using (List.mem_filter.1 he').2))
      fun b hb => by cases hb
    · unfold State.holders
      show List.count x (List.map _ (List.filter _ s.s_timerSched)) + s.calls.countP _ +
        (firedOnce ++ [e.hTimer]).count x = _
      rw [count_filter_hTimer, List.count_append, howed]
      by_cases hx : x = e.hTimer
      · subst hx
        have := hI.count_eq_one he
        rw [if_pos rfl, List.count_singleton_self]
        omega
      · rw [if_neg hx, List.count_singleton]
        simp [Ne.symm hx]
    · obtain ⟨rfl, rfl, -⟩ : now = now' ∧ todo = todo' ∧ firedOnce ++ [e.hTimer] = fired' := by
        simpa using hs
      obtain ⟨hmem, hne⟩ := List.mem_filter.1 he'
      exact hpassed e' hmem (by simpa using hne) hnot

theorem of_sched (hI : Inv s) {sched : Sched}
    (howed : ∀ x, sched.owed.count x = s.sched.owed.count x)
    (hS : SchedOk { s with sched := sched }) : Inv { s with sched := sched } := by
  refine hI.frame rfl rfl rfl (hI.refs.congr fun x => ?_) hI.fresh (fun _ _ => rfl) hI.users
    hI.asked hS
  unfold State.holders
  show _ + _ + sched.owed.count x = _
  rw [howed]

/-- A byte comes into a pipe or out of it, or the clock goes on. -/
theorem of_pipe (hI : Inv s) (pipe : ℕ → ℕ) (clock : ℕ) :
    Inv { s with pipe := pipe, clock := clock } :=
  hI.frame rfl rfl rfl hI.refs hI.fresh (fun _ _ => rfl) hI.users hI.asked
    (hI.sched.of_calls rfl rfl id)

theorem schedStep (hI : Inv s) (hgood : Orderly s .sched) (hn : TimerSched.sched s = some s') :
    Inv s' := by
  have hS := hI.sched
  unfold TimerSched.sched at hn
  split at hn
  · next hs =>
    split at hn
    · next hnil =>
      obtain rfl := Option.some.inj hn
      exact hI.of_sched (fun x => by rw [hs]; rfl) ⟨by simp, by simp, fun _ _ => hnil, by simp⟩
    · next e es hcons =>
      dsimp only at hn
      split_ifs at hn with hfirst
      · obtain rfl := Option.some.inj hn
        refine hI.of_sched (fun x => by rw [hs]; rfl)
          ⟨by simp, by simp, by simp, fun t ht _ e' he' => ?_⟩
        obtain rfl : earliest e.due es = t := by simpa using ht
        obtain ⟨hle, hall⟩ := earliest_le es e.due
        rw [hcons] at he'
        rcases List.mem_cons.1 he' with rfl | he'
        · exact hle
        · exact hall e' he'
      · obtain rfl := Option.some.inj hn
        exact hI.of_sched (fun x => by rw [hs]; rfl) ⟨by simp, by simp, by simp, by simp⟩
  · next n hs =>
    obtain rfl := Option.some.inj hn
    exact hI.of_sched (fun x => by rw [hs]; rfl) ⟨by simp, by simp, by simp, by simp⟩
  · next t n hs =>
    obtain rfl := Option.some.inj hn
    exact hI.of_sched (fun x => by rw [hs]; rfl) ⟨by simp, by simp, by simp, by simp⟩
  · next hs =>
    obtain rfl := Option.some.inj hn
    refine hI.of_sched (fun x => by rw [hs]; rfl)
      ⟨fun now todo firedOnce hp e he hnot => ?_, by simp, by simp, by simp⟩
    obtain ⟨-, rfl, -⟩ : _ ∧ s.s_timerSched.map (·.hTimer) = todo ∧ _ := by simpa using hp
    exact absurd (List.mem_map_of_mem he) hnot
  · next now h todo firedOnce hs =>
    -- going past a timer that is not due
    have hskip : (∀ e ∈ s.s_timerSched, e.hTimer = h → now < e.due) →
        Inv { s with sched := .pass now todo firedOnce } := fun hdue => by
      refine hI.of_sched (fun x => by rw [hs]; rfl)
        ⟨fun now' todo' fired' hp e he hnot => ?_, by simp, by simp, by simp⟩
      obtain ⟨rfl, rfl, rfl⟩ : now = now' ∧ todo = todo' ∧ firedOnce = fired' := by simpa using hp
      by_cases hh : e.hTimer = h
      · exact hdue e he hh
      · exact hS.passed now (h :: todo) firedOnce hs e he (by simpa [hh] using hnot)
    split at hn
    · next hf =>
      obtain rfl := Option.some.inj hn
      exact hskip fun e he hh => absurd hh (State.find_eq_none hf e he)
    · next e hf =>
      obtain ⟨he, hh⟩ := State.find_eq_some hf
      split_ifs at hn with hdue
      · split at hn
        · cases hn
        · next hd hhd =>
          have hroom : s.pipe hd.timer < pipeSize :=
            hgood h (by rw [hs]; rfl) hd hhd
          rw [if_pos hroom] at hn
          obtain rfl := Option.some.inj hn
          refine hI.signal he (by rw [timerOf, hh, hhd]; rfl) hdue (by rw [hs]; rfl)
            fun e' he' hne hnot => ?_
          exact hS.passed now (h :: todo) firedOnce hs e' he' (by simp [hnot, ← hh, hne])
      · obtain rfl := Option.some.inj hn
        refine hskip fun e' he' hh' => ?_
        rw [hI.entry_eq he' he (hh'.trans hh.symm)]
        omega
  · next now h todo firedOnce hs => exact absurd hs (hS.unblocked now h todo firedOnce)
  · next now firedOnce hs =>
    obtain rfl := Option.some.inj hn
    exact hI.of_sched (fun x => by rw [hs]; rfl) ⟨by simp, by simp, by simp, by simp⟩
  · next h hs' hs =>
    obtain rfl := Option.some.inj hn
    exact hI.closing hs
  · next hs =>
    obtain rfl := Option.some.inj hn
    exact hI.of_sched (fun x => by rw [hs]; rfl) ⟨by simp, by simp, by simp, by simp⟩

theorem callStep (hI : Inv s) {c : Call} (hc : c ∈ s.calls) (hgood : Orderly s (.call c))
    (hn : TimerSched.callStep s c = some s') : Inv s' := by
  cases c with
  | set h due lPeriod asked =>
    simp only [TimerSched.callStep, Option.ite_none_left_eq_some, Bool.not_eq_true,
      Option.some.injEq] at hn
    obtain ⟨hlocks, rfl⟩ := hn
    exact hI.arm hc hgood hlocks
  | setNotify h =>
    obtain rfl := Option.some.inj hn
    exact hI.notify hc (by simp) (by simp [Call.closes]) (by simp)
  | cancel h =>
    simp only [TimerSched.callStep, Option.ite_none_left_eq_some, Bool.not_eq_true,
      Option.some.injEq] at hn
    obtain ⟨hlocks, rfl⟩ := hn
    exact hI.disarm hc hgood hlocks
  | cancelNotify h wasScheduled =>
    obtain rfl := Option.some.inj hn
    cases wasScheduled with
    | false => exact hI.notify hc (by simp [Call.hTimer]) (by simp [Call.closes]) (by simp)
    | true =>
      refine hI.notify hc (by simp [Call.hTimer]) (fun x => ?_) (by simp)
      by_cases hx : h = x <;> simp [Call.closes, hx]
  | cancelClose h =>
    obtain rfl := Option.some.inj hn
    exact hI.cancelClose hc
  | drain h =>
    simp only [TimerSched.callStep] at hn
    split at hn
    · cases hn
    · split_ifs at hn
      · obtain rfl := Option.some.inj hn
        exact hI.of_pipe _ _
      · obtain rfl := Option.some.inj hn
        refine hI.goOn hc (by simp) (by simp [Call.closes]) (by simp)
          (hI.sched.of_calls rfl rfl fun hcalls d hd => ?_)
        by_cases hdc : d = .drain h
        · rw [hdc]
          rfl
        · exact hcalls d (List.mem_append_right _ ((List.mem_erase_of_ne hdc).2 hd))

theorem next (hI : Inv s) {W : ℕ} {act : Act} (hgood : Orderly s act)
    (hn : TimerSched.next W s act = some s') : Inv s' := by
  have husable : ∀ h hd, s.usable h = some hd → s.handles h = some hd ∧ hd.user = true :=
    fun h hd hu => Option.filter_eq_some_iff.1 hu
  have hheld : ∀ h, s.usable h ≠ none → Held s.handles h := fun h hu => by
    obtain ⟨hd, hhd⟩ := Option.ne_none_iff_exists'.1 hu
    exact ⟨hd, husable h hd hhd⟩
  cases act with
  | create =>
    obtain rfl := Option.some.inj hn
    have hnew := hI.newHandle s.nextTimer
    exact hnew.frame rfl rfl rfl hnew.refs hnew.fresh (fun _ _ => rfl) hnew.users hnew.asked
      (hnew.sched.of_calls rfl rfl id)
  | openTimer h =>
    obtain ⟨hd, -, rfl⟩ := Option.map_eq_some_iff.1 hn
    exact hI.newHandle hd.timer
  | close h =>
    simp only [TimerSched.next] at hn
    split at hn
    · cases hn
    · next hd hu =>
      simp only [Option.ite_none_right_eq_some, Option.some.injEq] at hn
      obtain ⟨hcalls, rfl⟩ := hn
      obtain ⟨hhd, huser⟩ := husable h hd hu
      exact hI.close hhd huser hcalls
  | set h q lPeriod =>
    simp only [TimerSched.next, Option.ite_none_right_eq_some, Option.some.injEq] at hn
    obtain ⟨⟨hu, -⟩, rfl⟩ := hn
    obtain ⟨hq, hlt⟩ := hgood
    refine hI.call (hheld h hu) (fun _ => rfl) fun _ _ _ _ heq => ?_
    obtain ⟨-, rfl, -, rfl⟩ : _ ∧ _ ∧ _ ∧ _ := by simpa using heq
    exact dueOf_eq hq hlt
  | cancel h =>
    simp only [TimerSched.next, Option.ite_none_right_eq_some, Option.some.injEq] at hn
    obtain ⟨hu, rfl⟩ := hn
    exact hI.call (hheld h hu) (fun _ => rfl) fun _ _ _ _ heq => by cases heq
  | call c =>
    simp only [TimerSched.next, Option.ite_none_right_eq_some] at hn
    exact hI.callStep hn.1 hgood hn.2
  | read timer =>
    simp only [TimerSched.next, Option.ite_none_right_eq_some, Option.some.injEq] at hn
    obtain ⟨-, rfl⟩ := hn
    exact hI.of_pipe _ _
  | tick d =>
    simp only [TimerSched.next, Option.ite_none_right_eq_some, Option.some.injEq] at hn
    obtain ⟨-, rfl⟩ := hn
    exact hI.of_pipe _ _
  | sched => exact hI.schedStep hgood hn

end Inv

/-- **A run of orderly steps is sound in all its states**, whatever the order of the calls, the
scheduler, the waits and the clock. -/
theorem sound_of_inTime {W : ℕ} {acts : List Act} (h : (lts W).AllSteps Orderly init acts) :
    (lts W).AllStates Sound init acts :=
  LTS.allStates_of_allSteps (fun _ hI => hI.sound) (fun _ _ _ hI hG hn => hI.next hG hn) inv_init h

/-- A timer of 1 µs and then every millisecond, which is cancelled and closed. -/
def periodic : List Act :=
  [.create, .sched, .set 0 (-10) 1, .call (.set 0 1000 1 1000), .call (.setNotify 0), .sched,
    .sched, .tick 2500000, .sched, .sched, .sched, .sched, .sched, .sched, .read 0, .cancel 0,
    .call (.cancel 0), .call (.cancelNotify 0 true), .call (.cancelClose 0), .call (.drain 0),
    .close 0, .sched, .sched]

/-- A run with a missed period. -/
theorem periodic_sound : (lts 0).AllStates Sound init periodic :=
  sound_of_inTime (by decide +kernel)

/-- In 2001 a timer is set to 1 µs later by the time of the system. -/
def absolute : List Act :=
  [.create, .sched, .set 0 126444736000000010 0, .call (.set 0 1000000000000001000 0 1000),
    .call (.setNotify 0), .sched, .sched, .tick 2000, .sched, .sched, .sched]

/-- The scheduler has gone past the timer after 2 µs, and has not signalled it. -/
theorem absolute_missed : ∃ s, (lts 1000000000000000000).run init absolute = some s ∧
    s.sched = .pass 2000 [] [] ∧ s.latest 0 = some ⟨1000, 0, 0, 1000⟩ ∧ ¬ Sound s := by
  have hrun : ((lts 1000000000000000000).run init absolute).map (fun s => (s.sched, s.latest 0)) =
      some (.pass 2000 [] [], some ⟨1000, 0, 0, 1000⟩) := by decide +kernel
  obtain ⟨s, hs, heq⟩ := Option.map_eq_some_iff.1 hrun
  obtain ⟨hsched, hlatest⟩ := Prod.mk.inj heq
  refine ⟨s, hs, hsched, hlatest, fun h => ?_⟩
  have := h.prompt 2000 [] hsched 0 _ hlatest
  revert this
  decide

end TimerSched

end Swinx
