import Mathlib
import Swinx.Hook.Basic
import Swinx.LTS.Sum

/-!
# Runs with hooks

The number of references of a hook is one for its list and one for each call that holds it.  A
`CallHook` has at most one call that is still to start a procedure, or whose procedure may still
call `CallNextHookEx`; its hook is not more recent than those that were started before.

* `chains_of_orderly` — in a run of orderly steps the hooks are sound in every state.
* `unsound_after_timeout` — what happens when a call gives up while its message is queued, or its
  procedure runs.
-/

namespace Swinx

namespace Hook

open Function (update update_eq_self update_of_ne update_self)

open Finset

/-- The references of a frame to a hook. -/
def Frame.held (fr : Frame) (h : ℕ) : ℤ :=
  (if fr.hook = h ∧ fr.phase ≠ .returned then 1 else 0) +
    if fr.phase = .skipped (some h) then 1 else 0

/-- The references to a hook. -/
def State.account (s : State) (h : ℕ) : ℤ :=
  (if h ∈ s.chain (s.hooks h).id then 1 else 0) + ∑ f ∈ range s.frames, (s.frame f).held h

theorem Frame.held_nonneg (fr : Frame) (h : ℕ) : 0 ≤ fr.held h := by
  unfold Frame.held
  split_ifs <;> decide

theorem Frame.held_pos_iff {fr : Frame} {h : ℕ} : 0 < fr.held h ↔ fr.Holds h := by
  unfold Frame.held Frame.Holds
  split_ifs <;> simp_all

theorem account_pos_iff {s : State} {h : ℕ} : 0 < s.account h ↔ s.InUse h := by
  have hnonneg : ∀ f ∈ range s.frames, 0 ≤ (s.frame f).held h := fun f _ => Frame.held_nonneg _ _
  have hsum := sum_nonneg hnonneg
  have hpos : 0 < ∑ f ∈ range s.frames, (s.frame f).held h ↔
      ∃ f < s.frames, (s.frame f).Holds h := by
    rw [sum_pos_iff_of_nonneg hnonneg]
    simp only [mem_range, Frame.held_pos_iff]
  unfold State.account State.InUse
  rw [← hpos]
  split_ifs with hmem
  · exact iff_of_true (by omega) (.inl hmem)
  · simp [hmem]

theorem account_setFrame {s : State} {f : ℕ} (hf : f < s.frames) (fr : Frame) (h : ℕ) :
    (s.setFrame f fr).account h = s.account h - (s.frame f).held h + fr.held h := by
  have := sum_update (fun _ fr => Frame.held fr h) s.frame (mem_range.2 hf) fr
  change (if h ∈ s.chain (s.hooks h).id then 1 else 0) +
    ∑ j ∈ range s.frames, (update s.frame f fr j).held h = _
  rw [this, State.account]
  ring

theorem account_newFrame (s : State) (fr : Frame) (h : ℕ) :
    (s.newFrame fr).account h = s.account h + fr.held h := by
  have hrest : ∑ f ∈ range s.frames, (update s.frame s.frames fr f).held h =
      ∑ f ∈ range s.frames, (s.frame f).held h :=
    sum_congr rfl fun f hf => by rw [update_of_ne (mem_range.1 hf).ne]
  change (if h ∈ s.chain (s.hooks h).id then 1 else 0) +
    ∑ j ∈ range (s.frames + 1), (update s.frame s.frames fr j).held h = _
  rw [sum_range_succ, hrest, update_self, State.account]
  ring

/-- The counts are the accounts. -/
def Counts (s : State) : Prop := ∀ h < s.n, ∃ m : ℕ, (s.obj h).Held m ∧ s.account h = m

theorem Counts.change {s s' : State} (hs : Counts s) {k : ℕ} {c : Counted} {d : ℤ}
    (hn : s'.n = s.n) (hobj : s'.obj = update s.obj k c)
    (haccount : ∀ h < s.n, s'.account h = s.account h + if h = k then d else 0)
    (hc : k < s.n → ∀ m : ℕ, (s.obj k).Held m → s.account k = m →
      ∃ m' : ℕ, c.Held m' ∧ (m' : ℤ) = m + d) : Counts s' := by
  intro h hh
  rw [hn] at hh
  obtain ⟨m, hm, hacc⟩ := hs h hh
  rw [hobj, haccount h hh]
  by_cases hk : h = k
  · subst hk
    obtain ⟨m', hm', hd⟩ := hc hh m hm hacc
    rw [update_self, if_pos rfl]
    exact ⟨m', hm', by omega⟩
  · rw [update_of_ne hk, if_neg hk]
    exact ⟨m, hm, by omega⟩

theorem Counts.keep {s s' : State} (hs : Counts s) (hn : s'.n = s.n) (hobj : s'.obj = s.obj)
    (haccount : ∀ h < s.n, s'.account h = s.account h) : Counts s' := by
  intro h hh
  rw [hn] at hh
  rw [hobj, haccount h hh]
  exact hs h hh

theorem Counts.alive {s : State} (hs : Counts s) {h : ℕ} (hh : h < s.n) (huse : s.InUse h) :
    ∃ m : ℕ, (s.obj h).Held (m + 1) ∧ s.account h = (m + 1 : ℕ) := by
  obtain ⟨m, hm, hacc⟩ := hs h hh
  have hpos := account_pos_iff.2 huse
  obtain ⟨m', rfl⟩ := Nat.exists_eq_succ_of_ne_zero (show m ≠ 0 by omega)
  exact ⟨m', hm, hacc⟩

theorem Counts.touch_eq {s : State} (hs : Counts s) {h : ℕ} (hh : h < s.n) (huse : s.InUse h) :
    s.touch h = s := by
  obtain ⟨m, hm, -⟩ := hs.alive hh huse
  rw [State.touch, hm.touch_eq, update_eq_self]

theorem held_addRef {c : Counted} {m : ℕ} (hm : c.Held m) (hpos : 0 < m) :
    c.addRef.Held (m + 1) := by
  obtain ⟨m, rfl⟩ := Nat.exists_eq_succ_of_ne_zero hpos.ne'
  exact hm.addRef

theorem held_release {c : Counted} {m : ℕ} (hm : c.Held m) (hpos : 0 < m) :
    c.release.Held (m - 1) := by
  obtain ⟨m, rfl⟩ := Nat.exists_eq_succ_of_ne_zero hpos.ne'
  exact hm.release

theorem Counts.acquired {s s' : State} (hs : Counts s) {k : ℕ} (hn : s'.n = s.n)
    (hobj : s'.obj = update s.obj k (s.obj k).addRef) (huse : s.InUse k)
    (haccount : ∀ h < s.n, s'.account h = s.account h + if h = k then 1 else 0) : Counts s' := by
  refine hs.change hn hobj haccount fun _ m hm hacc => ?_
  have := account_pos_iff.2 huse
  exact ⟨m + 1, held_addRef hm (by omega), by push_cast; ring⟩

theorem Counts.released {s s' : State} (hs : Counts s) {k : ℕ} (hn : s'.n = s.n)
    (hobj : s'.obj = update s.obj k (s.obj k).release) (huse : s.InUse k)
    (haccount : ∀ h < s.n, s'.account h = s.account h + if h = k then -1 else 0) : Counts s' := by
  refine hs.change hn hobj haccount fun _ m hm hacc => ?_
  have := account_pos_iff.2 huse
  exact ⟨m - 1, held_release hm (by omega), by omega⟩

/-! ### Lists -/

theorem nextIn_eq_some {hooks : List ℕ} {h k : ℕ} (hk : State.nextIn hooks h = some k) :
    k ∈ hooks ∧ (hooks.Pairwise (· > ·) → k < h) := by
  unfold State.nextIn at hk
  cases hdrop : hooks.dropWhile (· ≠ h) with
  | nil =>
    rw [hdrop] at hk
    cases hk
  | cons a rest =>
    rw [hdrop, List.tail_cons] at hk
    have hrest : k ∈ rest := List.mem_of_head? hk
    have ha : a = h := by
      have hhead := List.head?_dropWhile_not (· ≠ h) hooks
      rw [hdrop] at hhead
      simpa using hhead
    subst ha
    have hsuffix : (a :: rest) <:+ hooks := hdrop ▸ List.dropWhile_suffix _
    refine ⟨hsuffix.subset (List.mem_cons_of_mem a hrest), fun hsorted => ?_⟩
    exact List.rel_of_pairwise_cons (hsorted.sublist hsuffix.sublist) hrest

/-- The hook of which the frame has still to start the procedure. -/
def Frame.pending (fr : Frame) : Option ℕ :=
  match fr.phase with
  | .acquired => some fr.hook
  | .skipped next => next
  | _ => if fr.msg = .queued then some fr.hook else none

/-- The procedure of the frame runs and has not called `CallNextHookEx`. -/
def Frame.Passing (fr : Frame) : Prop := State.procThread fr ≠ none ∧ fr.called = false

/-- The frame may still lead to a start of a procedure. -/
def Frame.Open (fr : Frame) : Prop := fr.pending ≠ none ∨ fr.Passing

/-- A frame in its place among the hooks. -/
structure Frame.Fits (s : State) (fr : Frame) : Prop where
  hook : fr.hook < s.n
  kind : (s.hooks fr.hook).id = s.sessionId fr.session
  next : ∀ h, fr.phase = .skipped (some h) → h < s.n ∧ (s.hooks h).id = s.sessionId fr.session
  session : fr.session < s.sessions
  msg : fr.msg.active = true → fr.phase = .sent
  born : fr.born ≤ s.now

/-- What is known about a start. -/
structure Start.Fits (s : State) (a : Start) : Prop where
  hook : a.hook < s.n
  kind : (s.hooks a.hook).id = s.sessionId a.session
  session : a.session < s.sessions
  born : a.born ≤ s.now
  removed : ∀ t ∈ s.removedAt a.hook, a.born < t

/-- **The invariant of the orderly runs.** -/
structure Inv (s : State) : Prop where
  counts : Counts s
  chain : ∀ id, ∀ h ∈ s.chain id, h < s.n ∧ (s.hooks h).id = id ∧ id < WH_MAXHOOK ∧
    s.removedAt h = none
  sorted : ∀ id, (s.chain id).Pairwise (· > ·)
  fits : ∀ f < s.frames, (s.frame f).Fits s
  unmade : ∀ f, s.frames ≤ f → s.frame f = noFrame
  unremoved : ∀ h, s.n ≤ h → s.removedAt h = none
  /-- One frame of a `CallHook` is open. -/
  single : ∀ f f', (s.frame f).session = (s.frame f').session → (s.frame f).Open →
    (s.frame f').Open → f = f'
  pending : ∀ f, ∀ h ∈ (s.frame f).pending,
    (∀ a ∈ s.starts, a.session = (s.frame f).session → h < a.hook) ∧
      ∀ t ∈ s.removedAt h, (s.frame f).born < t
  passing : ∀ f, (s.frame f).Passing → ∀ a ∈ s.starts, a.session = (s.frame f).session →
    (s.frame f).hook ≤ a.hook
  started : ∀ a ∈ s.starts, a.Fits s
  order : s.starts.Pairwise fun a b => a.session = b.session → b.hook < a.hook
  stale : s.stale = false

theorem pending_noFrame : noFrame.pending = none := rfl

theorem not_open_noFrame : ¬ noFrame.Open := by
  rintro (h | h)
  · exact h rfl
  · exact h.1 rfl

theorem inv_init : Inv init where
  counts := fun h hh => absurd hh (Nat.not_lt_zero h)
  chain := fun _ _ hh => absurd hh List.not_mem_nil
  sorted := fun _ => .nil
  fits := fun f hf => absurd hf (Nat.not_lt_zero f)
  unmade := fun _ _ => rfl
  unremoved := fun _ _ => rfl
  single := fun _ _ _ h => absurd h not_open_noFrame
  pending := fun _ _ hh => nomatch hh
  passing := fun _ h => absurd (.inr h) not_open_noFrame
  started := fun _ ha => absurd ha List.not_mem_nil
  order := .nil
  stale := rfl

theorem Inv.sound {s : State} (hI : Inv s) : Sound s where
  lifetime := by
    intro h hh
    obtain ⟨m, hm, hacc⟩ := hI.counts h hh
    refine ⟨hm.sound, ?_⟩
    rw [hm.frees]
    have hiff : s.InUse h ↔ m ≠ 0 := by
      rw [← account_pos_iff, hacc]
      omega
    by_cases hz : m = 0
    · rw [if_pos hz, if_neg (fun hu => hiff.1 hu hz)]
    · rw [if_neg hz, if_pos (hiff.2 hz)]
  order := hI.order
  chain := fun a ha => (hI.started a ha).kind
  data := hI.stale
  removed := fun a ha => (hI.started a ha).removed

/-! ### Changes of one frame -/

section Changes

variable {s : State} {f : ℕ} {fr : Frame}

theorem Inv.replace (hI : Inv s) {obj : ℕ → Counted} (hf : f < s.frames)
    (hcounts : Counts { s with
      obj
      frame := update s.frame f fr })
    (hfits : fr.Fits s) (hsession : fr.session = (s.frame f).session)
    (hopen : fr.Open → (s.frame f).Open)
    (hpending : ∀ h ∈ fr.pending, (∀ a ∈ s.starts, a.session = fr.session → h < a.hook) ∧
      ∀ t ∈ s.removedAt h, fr.born < t)
    (hpassing : fr.Passing → ∀ a ∈ s.starts, a.session = fr.session → fr.hook ≤ a.hook) :
    Inv { s with
      obj
      frame := update s.frame f fr } := by
  refine ⟨hcounts, hI.chain, hI.sorted, fun g hg => ?_, fun g hg => ?_, hI.unremoved,
    fun g g' => ?_, fun g => ?_, fun g => ?_, fun a ha => ?_, hI.order, hI.stale⟩
  · by_cases h : g = f
    · subst h
      simp only [update_self]
      exact ⟨hfits.hook, hfits.kind, hfits.next, hfits.session, hfits.msg, hfits.born⟩
    · have := hI.fits g hg
      simp only [update_of_ne h]
      exact ⟨this.hook, this.kind, this.next, this.session, this.msg, this.born⟩
  · have h : g ≠ f := by
      rintro rfl
      exact absurd hf (not_lt.2 hg)
    simp only [update_of_ne h]
    exact hI.unmade g hg
  · have hsession' : ∀ g, (update s.frame f fr g).session = (s.frame g).session := by
      intro g
      by_cases h : g = f
      · subst h
        rw [update_self, hsession]
      · rw [update_of_ne h]
    have hopen' : ∀ g, (update s.frame f fr g).Open → (s.frame g).Open := by
      intro g
      by_cases h : g = f
      · subst h
        rw [update_self]
        exact hopen
      · rw [update_of_ne h]
        exact id
    simp only [hsession']
    exact fun h ho ho' => hI.single g g' h (hopen' g ho) (hopen' g' ho')
  · by_cases h : g = f
    · subst h
      simpa only [update_self] using hpending
    · simpa only [update_of_ne h] using hI.pending g
  · by_cases h : g = f
    · subst h
      simpa only [update_self] using hpassing
    · simpa only [update_of_ne h] using hI.passing g
  · have := hI.started a ha
    exact ⟨this.hook, this.kind, this.session, this.born, this.removed⟩

theorem Inv.setFrame (hI : Inv s) (hf : f < s.frames) (hfits : fr.Fits s)
    (hheld : ∀ h, fr.held h = (s.frame f).held h) (hsession : fr.session = (s.frame f).session)
    (hhook : fr.hook = (s.frame f).hook) (hborn : fr.born = (s.frame f).born)
    (hpending : ∀ h ∈ fr.pending, h ∈ (s.frame f).pending)
    (hpassing : fr.Passing → (s.frame f).Passing) : Inv (s.setFrame f fr) := by
  refine hI.replace hf ?_ hfits hsession ?_ (fun h hh => ?_) fun h => ?_
  · refine hI.counts.keep rfl rfl fun h _ => ?_
    have := account_setFrame hf fr h
    rw [hheld h] at this
    exact this.trans (by ring)
  · rintro (h | h)
    · obtain ⟨k, hk⟩ := Option.ne_none_iff_exists'.1 h
      exact .inl (Option.ne_none_iff_exists'.2 ⟨k, hpending k hk⟩)
    · exact .inr (hpassing h)
  · rw [hsession, hborn]
    exact hI.pending f h (hpending h hh)
  · rw [hsession, hhook]
    exact hI.passing f (hpassing h)

theorem Inv.start (hI : Inv s) (hf : f < s.frames)
    (hpend : (s.frame f).pending = some (s.frame f).hook) (hfits : fr.Fits s)
    (hheld : ∀ h, fr.held h = (s.frame f).held h) (hsession : fr.session = (s.frame f).session)
    (hhook : fr.hook = (s.frame f).hook) (hnone : fr.pending = none) :
    Inv ((s.setFrame f fr).start (s.frame f)) := by
  have hopen : (s.frame f).Open := .inl (by simp [hpend])
  obtain ⟨hlt, hremoved⟩ := hI.pending f _ hpend
  have hold := hI.fits f hf
  -- No other frame of the session may start a procedure or has started the last one.
  have hother : ∀ g, g ≠ f → (s.frame g).Open → (s.frame g).session ≠ (s.frame f).session :=
    fun g hg ho h => hg (hI.single g f h ho hopen)
  have hset : Inv (s.setFrame f fr) := by
    refine hI.replace hf ?_ hfits hsession (fun _ => hopen) (by simp [hnone]) fun _ a ha h => ?_
    · refine hI.counts.keep rfl rfl fun h _ => ?_
      have := account_setFrame hf fr h
      rw [hheld h] at this
      exact this.trans (by ring)
    · rw [hhook]
      exact (hlt a ha (h.trans hsession)).le
  refine ⟨hset.counts, hset.chain, hset.sorted, fun g hg => ?_, hset.unmade, hset.unremoved,
    hset.single, fun g h hh => ?_, fun g hpass a ha h => ?_, fun a ha => ?_, ?_, hset.stale⟩
  · have := hset.fits g hg
    exact ⟨this.hook, this.kind, this.next, this.session, this.msg, this.born⟩
  · refine ⟨fun a ha hsess => ?_, (hset.pending g h hh).2⟩
    rcases List.mem_append.1 ha with ha | ha
    · exact (hset.pending g h hh).1 a ha hsess
    · obtain rfl := List.mem_singleton.1 ha
      by_cases hg : g = f
      · subst hg
        simp only [State.start, State.setFrame, update_self, hnone] at hh
        cases hh
      · simp only [State.start, State.setFrame, update_of_ne hg] at hh hsess
        exact absurd hsess.symm (hother g hg (.inl fun h' => by simp [h'] at hh))
  · rcases List.mem_append.1 ha with ha | ha
    · exact hset.passing g hpass a ha h
    · obtain rfl := List.mem_singleton.1 ha
      by_cases hg : g = f
      · subst hg
        simp only [State.start, State.setFrame, update_self]
        exact hhook.le
      · simp only [State.start, State.setFrame, update_of_ne hg] at hpass h
        exact absurd h.symm (hother g hg (.inr hpass))
  · rcases List.mem_append.1 ha with ha | ha
    · have := hset.started a ha
      exact ⟨this.hook, this.kind, this.session, this.born, this.removed⟩
    · obtain rfl := List.mem_singleton.1 ha
      exact ⟨hold.hook, hold.kind, hold.session, hold.born, hremoved⟩
  · refine List.pairwise_append.2 ⟨hI.order, List.pairwise_singleton _ _, ?_⟩
    intro a ha b hb
    obtain rfl := List.mem_singleton.1 hb
    exact hlt a ha

end Changes

section Operations

variable {s : State} {f : ℕ}

theorem Inv.inUse (_ : Inv s) (hf : f < s.frames) (h : (s.frame f).phase ≠ .returned) :
    s.InUse (s.frame f).hook := .inr ⟨f, hf, .inl ⟨rfl, h⟩⟩

theorem Inv.lt_frames (hI : Inv s) (h : (s.frame f).phase ≠ .returned ∨ (s.frame f).msg ≠ .none) :
    f < s.frames := by
  by_contra hf
  rw [hI.unmade f (not_lt.1 hf)] at h
  exact h.elim (fun h => h rfl) fun h => h rfl

theorem Inv.newFrame (hI : Inv s) {session tid h : ℕ} (hsession : session < s.sessions)
    (hmem : h ∈ s.chain (s.sessionId session))
    (hfree : ∀ g, (s.frame g).session = session → ¬ (s.frame g).Open)
    (hlt : ∀ a ∈ s.starts, a.session = session → h < a.hook) :
    Inv ((s.acquire h).newFrame ⟨session, tid, h, .acquired, .none, false, s.now⟩) := by
  obtain ⟨hh, hid, -, hremoved⟩ := hI.chain _ h hmem
  have huse : s.InUse h := .inl (by rwa [hid])
  have hclosed : ¬ Frame.Passing ⟨session, tid, h, .acquired, .none, false, s.now⟩ :=
    fun hp => hp.1 rfl
  refine ⟨?_, hI.chain, hI.sorted, fun g hg => ?_, fun g hg => ?_, hI.unremoved, fun g g' => ?_,
    fun g => ?_, fun g => ?_, fun a ha => ?_, hI.order, hI.stale⟩
  · refine hI.counts.acquired rfl rfl huse fun k hk => ?_
    refine (account_newFrame (s.acquire h) _ k).trans ?_
    change s.account k + _ = _
    simp [Frame.held, eq_comm]
  · rcases Nat.lt_succ_iff_lt_or_eq.1 hg with hg | rfl
    · have := hI.fits g hg
      have hne : g ≠ s.frames := hg.ne
      simp only [State.newFrame, State.setFrame, State.acquire, update_of_ne hne]
      exact ⟨this.hook, this.kind, this.next, this.session, this.msg, this.born⟩
    · simp only [State.newFrame, State.setFrame, State.acquire, update_self]
      exact ⟨hh, hid, by simp, hsession, by simp [Place.active], le_rfl⟩
  · have hg' : s.frames < g := hg
    simp only [State.newFrame, State.setFrame, State.acquire, update_of_ne hg'.ne']
    exact hI.unmade g hg'.le
  · simp only [State.newFrame, State.setFrame, State.acquire]
    by_cases hg : g = s.frames <;> by_cases hg' : g' = s.frames
    · exact fun _ _ _ => hg.trans hg'.symm
    · subst hg
      simp only [update_self, update_of_ne hg']
      exact fun h _ ho => absurd ho (hfree g' h.symm)
    · subst hg'
      simp only [update_self, update_of_ne hg]
      exact fun h ho _ => absurd ho (hfree g h)
    · simp only [update_of_ne hg, update_of_ne hg']
      exact hI.single g g'
  · simp only [State.newFrame, State.setFrame, State.acquire]
    by_cases hg : g = s.frames
    · subst hg
      simp only [update_self]
      rintro k hk
      obtain rfl : h = k := Option.some.inj hk
      exact ⟨hlt, by simp [hremoved]⟩
    · simpa only [update_of_ne hg] using hI.pending g
  · simp only [State.newFrame, State.setFrame, State.acquire]
    by_cases hg : g = s.frames
    · subst hg
      simp only [update_self]
      exact fun hp => absurd hp hclosed
    · simpa only [update_of_ne hg] using hI.passing g
  · have := hI.started a ha
    exact ⟨this.hook, this.kind, this.session, this.born, this.removed⟩

theorem Inv.callHook (hI : Inv s) {session tid : ℕ} {hook? : Option ℕ}
    (hsession : session < s.sessions) (hmem : ∀ h ∈ hook?, h ∈ s.chain (s.sessionId session))
    (hfree : ∀ g, (s.frame g).session = session → ¬ (s.frame g).Open)
    (hlt : ∀ h ∈ hook?, ∀ a ∈ s.starts, a.session = session → h < a.hook) :
    Inv (s.callHook session tid hook?) := by
  cases hook? with
  | none => exact hI
  | some h => exact hI.newFrame hsession (hmem h rfl) hfree (hlt h rfl)

theorem Inv.callFirst (hI : Inv s) (tid id : ℕ) : Inv (s.callFirst tid id) := by
  have hsession : ∀ session < s.sessions,
      update s.sessionId s.sessions id session = s.sessionId session :=
    fun session h => update_of_ne h.ne _ _
  have hnew : Inv { s with
      sessions := s.sessions + 1
      sessionId := update s.sessionId s.sessions id } := by
    refine ⟨hI.counts, hI.chain, hI.sorted, fun g hg => ?_, hI.unmade, hI.unremoved, hI.single,
      hI.pending, hI.passing, fun a ha => ?_, hI.order, hI.stale⟩
    · have := hI.fits g hg
      refine ⟨this.hook, ?_, fun h hh => ?_, this.session.trans (Nat.lt_succ_self _), this.msg,
        this.born⟩
      · simpa only [hsession _ this.session] using this.kind
      · simpa only [hsession _ this.session] using this.next h hh
    · have := hI.started a ha
      refine ⟨this.hook, ?_, this.session.trans (Nat.lt_succ_self _), this.born, this.removed⟩
      simpa only [hsession _ this.session] using this.kind
  refine hnew.callHook (Nat.lt_succ_self _) (fun h hh => ?_) (fun g hg ho => ?_)
    fun h _ a ha hsess => ?_
  · simp only [update_self]
    split_ifs at hh
    · cases hh
    · exact List.mem_of_head? hh
  · by_cases hlt : g < s.frames
    · exact absurd hg (hI.fits g hlt).session.ne
    · have hg' : s.frame g = noFrame := hI.unmade g (not_lt.1 hlt)
      exact not_open_noFrame (hg' ▸ ho)
  · exact absurd hsess (hI.started a ha).session.ne

theorem Frame.Fits.not_active {fr : Frame} (h : fr.Fits s) (hp : fr.phase ≠ .sent) :
    fr.msg ≠ .queued ∧ ∀ tid, fr.msg ≠ .running tid :=
  ⟨fun hm => hp (h.msg (by rw [hm]; rfl)), fun tid hm => hp (h.msg (by rw [hm]; rfl))⟩

/-- A frame without an active message that does not call its procedure. -/
theorem not_passing {fr : Frame} (hp : fr.phase ≠ .running) (hm : ∀ tid, fr.msg ≠ .running tid) :
    ¬ fr.Passing := by
  rintro ⟨h, -⟩
  apply h
  rw [State.procThread, if_neg hp]
  split
  · exact absurd ‹_› (hm _)
  · rfl

theorem Inv.enter (hI : Inv s) {delivered : Bool} {s' : State}
    (h : s.enter f delivered = some s') : Inv s' := by
  unfold State.enter at h
  simp only [Option.ite_none_right_eq_some] at h
  obtain ⟨⟨hf, hphase⟩, h⟩ := h
  have hfits := hI.fits f hf
  have huse := hI.inUse hf (by simp [hphase])
  have hinactive := hfits.not_active (by simp [hphase])
  have hpend : (s.frame f).pending = some (s.frame f).hook := by simp [Frame.pending, hphase]
  rw [hI.counts.touch_eq hfits.hook huse] at h
  by_cases htid : (s.hooks (s.frame f).hook).tid = (s.frame f).tid
  · rw [if_pos htid] at h
    obtain rfl := Option.some.inj h
    refine hI.start hf hpend ⟨hfits.hook, hfits.kind, by simp, hfits.session, fun hm => ?_,
      hfits.born⟩ (fun k => ?_) rfl rfl ?_
    · exact absurd (hfits.msg hm) (by simp [hphase])
    · simp [Frame.held, hphase]
    · simp [Frame.pending, hinactive.1]
  rw [if_neg htid] at h
  by_cases hconn : s.connected (s.hooks (s.frame f).hook).tid = true
  · rw [if_pos hconn] at h
    obtain rfl := Option.some.inj h
    refine hI.setFrame hf ⟨hfits.hook, hfits.kind, by simp, hfits.session, by simp, hfits.born⟩
      (fun k => ?_) rfl rfl rfl (fun k hk => ?_) fun hp => ?_
    · simp [Frame.held, hphase]
    · cases delivered <;> simp_all [Frame.pending]
    · exact absurd hp (not_passing (by simp) (by cases delivered <;> simp))
  · rw [if_neg hconn] at h
    split at h
    case h_1 hnext =>
      obtain rfl := Option.some.inj h
      refine hI.setFrame hf ⟨hfits.hook, hfits.kind, by simp, hfits.session, fun hm => ?_,
        hfits.born⟩ (fun k => ?_) rfl rfl rfl (fun k hk => ?_) fun hp => ?_
      · exact absurd (hfits.msg hm) (by simp [hphase])
      · simp [Frame.held, hphase]
      · simp [Frame.pending] at hk
      · exact absurd hp (not_passing (by simp) hinactive.2)
    case h_2 next hnext =>
      obtain rfl := Option.some.inj h
      obtain ⟨hmem, hlt⟩ := nextIn_eq_some hnext
      obtain ⟨hn, hid, -, hremoved⟩ := hI.chain _ next hmem
      refine hI.replace hf ?_ ⟨hfits.hook, hfits.kind, ?_, hfits.session, fun hm => ?_, le_rfl⟩ rfl
        (fun _ => .inl (by simp [hpend])) (fun k hk => ?_) fun hp => ?_
      · refine hI.counts.acquired rfl rfl (.inl (by rwa [hid])) fun k _ => ?_
        refine (account_setFrame hf _ k).trans ?_
        simp only [Frame.held, hphase, ne_eq, reduceCtorEq, not_false_eq_true, and_true, if_false,
          add_zero, Phase.skipped.injEq, Option.some.injEq, eq_comm]
        ring
      · rintro k hk
        obtain rfl : next = k := by simpa using hk
        exact ⟨hn, hid.trans hfits.kind⟩
      · exact absurd (hfits.msg hm) (by simp [hphase])
      · obtain rfl : next = k := by simpa [Frame.pending] using hk
        refine ⟨fun a ha hsess => ?_, by simp [hremoved]⟩
        exact (hlt (hI.sorted _)).trans ((hI.pending f _ hpend).1 a ha hsess)
      · exact absurd hp (not_passing (by simp) hinactive.2)

theorem Inv.dropHook (hI : Inv s) {fr : Frame} (hf : f < s.frames)
    (hphase : (s.frame f).phase ≠ .returned) (hfits : fr.Fits s)
    (hheld : ∀ k, fr.held k = (s.frame f).held k + if (s.frame f).hook = k then -1 else 0)
    (hsession : fr.session = (s.frame f).session) (hborn : fr.born = (s.frame f).born)
    (hpending : ∀ k ∈ fr.pending, k ∈ (s.frame f).pending) (hpassing : ¬ fr.Passing) :
    Inv ((s.release (s.frame f).hook).setFrame f fr) := by
  refine hI.replace hf ?_ hfits hsession (fun ho => ?_) (fun k hk => ?_)
    fun hp => absurd hp hpassing
  · refine hI.counts.released rfl rfl (hI.inUse hf hphase) fun k _ => ?_
    refine (account_setFrame hf fr k).trans ?_
    rw [hheld k]
    simp only [eq_comm]
    ring
  · obtain ⟨k, hk⟩ := Option.ne_none_iff_exists'.1 (ho.resolve_right hpassing)
    exact .inl (Option.ne_none_iff_exists'.2 ⟨k, hpending k hk⟩)
  · rw [hsession, hborn]
    exact hI.pending f k (hpending k hk)

theorem Inv.goOn (hI : Inv s) {s' : State} (h : s.goOn f = some s') : Inv s' := by
  unfold State.goOn at h
  simp only at h
  split at h
  case h_1 hphase =>
    obtain rfl := Option.some.inj h
    have hf : f < s.frames := hI.lt_frames (.inl (by simp [hphase]))
    have hfits := hI.fits f hf
    have hinactive := hfits.not_active (by simp [hphase])
    refine hI.dropHook hf (by simp [hphase]) ⟨hfits.hook, hfits.kind, by simp, hfits.session,
      fun hm => ?_, hfits.born⟩ (fun k => ?_) rfl rfl (fun k hk => ?_)
      (not_passing (by simp) hinactive.2)
    · exact absurd (hfits.msg hm) (by simp [hphase])
    · by_cases hk : (s.frame f).hook = k <;> simp [Frame.held, hphase, hk]
    · simp [Frame.pending, hinactive.1] at hk
  case h_2 next hphase =>
    obtain rfl := Option.some.inj h
    have hf : f < s.frames := hI.lt_frames (.inl (by simp [hphase]))
    have hfits := hI.fits f hf
    have hinactive := hfits.not_active (by simp [hphase])
    obtain ⟨hn, hid⟩ := hfits.next next hphase
    refine hI.dropHook hf (by simp [hphase]) ⟨hn, hid, by simp, hfits.session, fun hm => ?_,
      hfits.born⟩ (fun k => ?_) rfl rfl (fun k hk => ?_) (not_passing (by simp) hinactive.2)
    · exact absurd (hfits.msg hm) (by simp [hphase])
    · by_cases hk : (s.frame f).hook = k <;> simp [Frame.held, hphase, hk]
    · simpa [Frame.pending, hphase] using hk
  case h_3 => cases h

theorem Inv.finish (hI : Inv s) {s' : State} (h : s.finish f = some s') : Inv s' := by
  unfold State.finish at h
  simp only [Option.ite_none_right_eq_some, Option.some.injEq] at h
  obtain ⟨hphase, rfl⟩ := h
  have hf : f < s.frames := hI.lt_frames (.inl (by simp [hphase]))
  have hfits := hI.fits f hf
  have hinactive := hfits.not_active (by simp [hphase])
  refine hI.dropHook hf (by simp [hphase]) ⟨hfits.hook, hfits.kind, by simp, hfits.session,
    fun hm => ?_, hfits.born⟩ (fun k => ?_) rfl rfl (fun k hk => ?_)
    (not_passing (by simp) hinactive.2)
  · exact absurd (hfits.msg hm) (by simp [hphase])
  · by_cases hk : (s.frame f).hook = k <;> simp [Frame.held, hphase, hk]
  · simp [Frame.pending, hinactive.1] at hk

theorem Inv.procReturn (hI : Inv s) {s' : State} (h : s.procReturn f = some s') : Inv s' := by
  unfold State.procReturn at h
  simp only [Option.ite_none_right_eq_some, Option.some.injEq] at h
  obtain ⟨hphase, rfl⟩ := h
  have hf : f < s.frames := hI.lt_frames (.inl (by simp [hphase]))
  have hfits := hI.fits f hf
  have hinactive := hfits.not_active (by simp [hphase])
  refine hI.setFrame hf ⟨hfits.hook, hfits.kind, by simp, hfits.session, fun hm => ?_, hfits.born⟩
    (fun k => ?_) rfl rfl rfl (fun k hk => ?_)
    fun hp => absurd hp (not_passing (by simp) hinactive.2)
  · exact absurd (hfits.msg hm) (by simp [hphase])
  · simp [Frame.held, hphase]
  · simp [Frame.pending, hinactive.1] at hk

theorem Inv.dispatch (hI : Inv s) {tid : ℕ} {s' : State} (h : s.dispatch f tid = some s') :
    Inv s' := by
  unfold State.dispatch at h
  simp only [Option.ite_none_right_eq_some, Option.some.injEq] at h
  obtain ⟨hmsg, rfl⟩ := h
  have hf : f < s.frames := hI.lt_frames (.inr (by simp [hmsg]))
  have hfits := hI.fits f hf
  have hsent : (s.frame f).phase = .sent := hfits.msg (by simp [hmsg, Place.active])
  have hstart : Inv ((s.setFrame f { s.frame f with msg := .running tid }).start (s.frame f)) := by
    refine hI.start hf ?_ ⟨hfits.hook, hfits.kind, by simp [hsent], hfits.session, fun _ => hsent,
      hfits.born⟩ (fun k => ?_) rfl rfl ?_
    · simp [Frame.pending, hsent, hmsg]
    · simp [Frame.held, hsent]
    · simp [Frame.pending, hsent]
  have hstale : (s.stale || decide ((s.frame f).phase ≠ .sent)) = s.stale := by simp [hsent]
  rw [hstale]
  exact hstart

theorem Inv.msgDone (hI : Inv s) {msg : Place} (hf : f < s.frames)
    (hactive : (s.frame f).msg.active = true) (hmsg : msg.active = false) :
    Inv (s.setFrame f { s.frame f with msg }) := by
  have hfits := hI.fits f hf
  have hsent : (s.frame f).phase = .sent := hfits.msg hactive
  refine hI.setFrame hf ⟨hfits.hook, hfits.kind, by simp [hsent], hfits.session, fun hm => ?_,
    hfits.born⟩ (fun k => ?_) rfl rfl rfl (fun k hk => ?_) fun hp => ?_
  · simp [hmsg] at hm
  · simp [Frame.held, hsent]
  · have : msg ≠ .queued := by
      rintro rfl
      simp [Place.active] at hmsg
    simp [Frame.pending, hsent, this] at hk
  · refine absurd hp (not_passing (by simp [hsent]) fun tid h => ?_)
    simp only at h
    simp [h, Place.active] at hmsg

theorem Inv.msgReturn (hI : Inv s) {s' : State} (h : s.msgReturn f = some s') : Inv s' := by
  unfold State.msgReturn at h
  simp only at h
  split at h
  case h_1 tid hmsg =>
    obtain rfl := Option.some.inj h
    exact hI.msgDone (hI.lt_frames (.inr (by simp [hmsg]))) (by simp [hmsg, Place.active]) rfl
  case h_2 => cases h

theorem Inv.deleteMsg (hI : Inv s) {s' : State} (h : s.deleteMsg f = some s') : Inv s' := by
  unfold State.deleteMsg at h
  simp only [Option.ite_none_right_eq_some, Option.some.injEq] at h
  obtain ⟨hmsg, rfl⟩ := h
  exact hI.msgDone (hI.lt_frames (.inr (by simp [hmsg]))) (by simp [hmsg, Place.active]) rfl

theorem Inv.endSend (hI : Inv s) (horderly : (s.frame f).msg.active = false) {s' : State}
    (h : s.endSend f = some s') : Inv s' := by
  unfold State.endSend at h
  simp only [Option.ite_none_right_eq_some, Option.some.injEq] at h
  obtain ⟨hphase, rfl⟩ := h
  have hf : f < s.frames := hI.lt_frames (.inl (by simp [hphase]))
  have hfits := hI.fits f hf
  have hqueued : (s.frame f).msg ≠ .queued := fun h => by simp [h, Place.active] at horderly
  refine hI.setFrame hf ⟨hfits.hook, hfits.kind, by simp, hfits.session, fun hm => ?_, hfits.born⟩
    (fun k => ?_) rfl rfl rfl (fun k hk => ?_)
    fun hp => absurd hp (not_passing (by simp) fun tid h => ?_)
  · simp only at hm
    simp [horderly] at hm
  · simp [Frame.held, hphase]
  · simp [Frame.pending, hqueued] at hk
  · simp only at h
    simp [h, Place.active] at horderly

/-- A procedure calls `CallNextHookEx` with its own hook, for the first time. -/
theorem Inv.callNext (hI : Inv s) (hcalled : (s.frame f).called = false) {s' : State}
    (h : s.callNext f (s.frame f).hook = some s') : Inv s' := by
  unfold State.callNext at h
  simp only at h
  split at h
  case h_1 => cases h
  case h_2 tid hthread =>
    obtain rfl := Option.some.inj h
    have hpassing : (s.frame f).Passing := ⟨by simp [hthread], hcalled⟩
    have hf : f < s.frames := by
      by_contra hf
      rw [hI.unmade f (not_lt.1 hf)] at hthread
      cases hthread
    have hfits := hI.fits f hf
    have hphase : (s.frame f).phase = .running ∨ (s.frame f).phase = .sent := by
      by_cases hrun : (s.frame f).phase = .running
      · exact .inl hrun
      · right
        rw [State.procThread, if_neg hrun] at hthread
        split at hthread
        case h_1 hmsg => exact hfits.msg (by simp [hmsg, Place.active])
        case h_2 => cases hthread
    have hqueued : (s.frame f).msg ≠ .queued := by
      intro hq
      have hsent := hfits.msg (by simp [hq, Place.active])
      simp [State.procThread, hsent, hq] at hthread
    have huse : s.InUse (s.frame f).hook :=
      hI.inUse hf (by rcases hphase with h | h <;> simp [h])
    rw [hI.counts.touch_eq hfits.hook huse]
    have hnone : Frame.pending { s.frame f with called := true } = none := by
      rcases hphase with h | h <;> simp [Frame.pending, h, hqueued]
    have hset : Inv (s.setFrame f { s.frame f with called := true }) := by
      refine hI.setFrame hf ⟨hfits.hook, hfits.kind, hfits.next, hfits.session, hfits.msg,
        hfits.born⟩ (fun _ => rfl) rfl rfl rfl (fun k hk => ?_) fun hp => ?_
      · rw [hnone] at hk
        cases hk
      · exact absurd hp.2 (by simp)
    refine hset.callHook hfits.session (fun k hk => ?_) (fun g hg ho => ?_)
      fun k hk a ha hsess => ?_
    · change k ∈ s.chain (s.sessionId (s.frame f).session)
      rw [← hfits.kind]
      exact (nextIn_eq_some hk).1
    · -- The frame was the open one of its session, and it is closed now.
      by_cases hgf : g = f
      · subst hgf
        simp only [State.setFrame, update_self] at ho
        rcases ho with ho | ho
        · exact ho hnone
        · exact absurd ho.2 (by simp)
      · simp only [State.setFrame, update_of_ne hgf] at hg ho
        exact hgf (hI.single g f hg ho (.inr hpassing))
    · have hlt : k < (s.frame f).hook := (nextIn_eq_some hk).2 (hI.sorted _)
      exact hlt.trans_le (hI.passing f hpassing a ha hsess)

theorem Inv.setWindowsHook (hI : Inv s) (id tid : ℕ) : Inv (s.setWindowsHook id tid) := by
  unfold State.setWindowsHook
  split_ifs with hid
  · exact hI
  have hhooks : ∀ h, h < s.n → update s.hooks s.n ⟨id, tid⟩ h = s.hooks h :=
    fun h hh => update_of_ne hh.ne _ _
  have hmem : ∀ id' h, h < s.n →
      (h ∈ update s.chain id (s.n :: s.chain id) id' ↔ h ∈ s.chain id') := by
    intro id' h hh
    by_cases hi : id' = id
    · subst hi
      simp [hh.ne]
    · rw [update_of_ne hi]
  refine ⟨fun h hh => ?_, fun id' h hh => ?_, fun id' => ?_, fun g hg => ?_, hI.unmade,
    fun h hh => hI.unremoved h (Nat.le_of_succ_le hh), hI.single, hI.pending, hI.passing,
    fun a ha => ?_, hI.order, hI.stale⟩
  · rcases Nat.lt_succ_iff_lt_or_eq.1 hh with hh | rfl
    · obtain ⟨m, hm, hacc⟩ := hI.counts h hh
      refine ⟨m, ?_, ?_⟩
      · simpa only [update_of_ne hh.ne] using hm
      · rw [← hacc]
        unfold State.account
        simp only [hhooks h hh, hmem _ h hh]
    · refine ⟨1, ?_, ?_⟩
      · simpa only [update_self] using Counted.held_new
      · have hzero : ∑ f ∈ range s.frames, (s.frame f).held s.n = 0 := by
          refine sum_eq_zero fun f hf => ?_
          have hfits := hI.fits f (mem_range.1 hf)
          have hnext : (s.frame f).phase ≠ .skipped (some s.n) :=
            fun h => lt_irrefl _ (hfits.next _ h).1
          simp [Frame.held, hfits.hook.ne, hnext]
        unfold State.account
        simp only [update_self, List.mem_cons, true_or, if_true, hzero]
        rfl
  · by_cases hi : id' = id
    · subst hi
      simp only [update_self, List.mem_cons] at hh
      rcases hh with rfl | hh
      · refine ⟨Nat.lt_succ_self _, ?_, not_le.1 hid, hI.unremoved _ le_rfl⟩
        simp only [update_self]
      · obtain ⟨hn, hkind, hmax, hremoved⟩ := hI.chain id' h hh
        refine ⟨hn.trans (Nat.lt_succ_self _), ?_, hmax, hremoved⟩
        simpa only [hhooks h hn] using hkind
    · simp only [update_of_ne hi] at hh
      obtain ⟨hn, hkind, hmax, hremoved⟩ := hI.chain id' h hh
      refine ⟨hn.trans (Nat.lt_succ_self _), ?_, hmax, hremoved⟩
      simpa only [hhooks h hn] using hkind
  · by_cases hi : id' = id
    · subst hi
      simp only [update_self]
      exact List.pairwise_cons.2 ⟨fun h hh => (hI.chain id' h hh).1, hI.sorted id'⟩
    · simpa only [update_of_ne hi] using hI.sorted id'
  · have := hI.fits g hg
    refine ⟨this.hook.trans (Nat.lt_succ_self _), ?_, fun h hh => ?_, this.session, this.msg,
      this.born⟩
    · simpa only [hhooks _ this.hook] using this.kind
    · obtain ⟨hn, hkind⟩ := this.next h hh
      exact ⟨hn.trans (Nat.lt_succ_self _), by simpa only [hhooks h hn] using hkind⟩
  · have := hI.started a ha
    refine ⟨this.hook.trans (Nat.lt_succ_self _), ?_, this.session, this.born, this.removed⟩
    simpa only [hhooks _ this.hook] using this.kind

/-- All that was done was done before this time. -/
structure Earlier (s : State) : Prop where
  frame : ∀ f < s.frames, (s.frame f).born < s.now
  start : ∀ a ∈ s.starts, a.born < s.now

theorem Inv.unhook (hI : Inv s) (hearlier : Earlier s) (h : ℕ) : Inv (s.unhook h) := by
  unfold State.unhook
  split
  case h_1 => exact hI
  case h_2 id hfind =>
    have hmem : h ∈ s.chain id := by simpa using List.find?_some hfind
    obtain ⟨hn, hkind, -, hnone⟩ := hI.chain id h hmem
    have hnodup : (s.chain id).Nodup := (hI.sorted id).imp fun h => ne_of_gt h
    have hchain : ∀ id' k, (k ∈ update s.chain id ((s.chain id).erase h) id' ↔
        k ∈ s.chain id' ∧ k ≠ h) := by
      intro id' k
      by_cases hi : id' = id
      · subst hi
        rw [update_self, hnodup.mem_erase_iff, and_comm]
      · rw [update_of_ne hi]
        refine ⟨fun hk => ⟨hk, ?_⟩, And.left⟩
        rintro rfl
        exact hi ((hI.chain id' k hk).2.1.symm.trans hkind)
    have hremoved : ∀ k t, t ∈ update s.removedAt h (some s.now) k →
        t = s.now ∨ t ∈ s.removedAt k := by
      intro k t ht
      by_cases hk : k = h
      · subst hk
        rw [update_self] at ht
        exact .inl (Option.some.inj ht).symm
      · rw [update_of_ne hk] at ht
        exact .inr ht
    refine ⟨?_, fun id' k hk => ?_, fun id' => ?_, fun g hg => ?_, hI.unmade, fun k hk => ?_,
      hI.single, fun g k hk => ?_, hI.passing, fun a ha => ?_, hI.order, hI.stale⟩
    · refine hI.counts.released rfl rfl (.inl (by rwa [hkind])) fun k _ => ?_
      change (if k ∈ update s.chain id ((s.chain id).erase h) (s.hooks k).id then 1 else 0)
        + ∑ f ∈ range s.frames, (s.frame f).held k = _
      simp only [State.account, hchain]
      by_cases hk : k = h
      · subst hk
        simp [hkind, hmem]
      · simp [hk]
    · obtain ⟨hk, hne⟩ := (hchain id' k).1 hk
      obtain ⟨hkn, hkkind, hkmax, hknone⟩ := hI.chain id' k hk
      exact ⟨hkn, hkkind, hkmax, (update_of_ne hne _ _).trans hknone⟩
    · change (update s.chain id ((s.chain id).erase h) id').Pairwise _
      by_cases hi : id' = id
      · subst hi
        rw [update_self]
        exact (hI.sorted id').sublist List.erase_sublist
      · rw [update_of_ne hi]
        exact hI.sorted id'
    · have := hI.fits g hg
      exact ⟨this.hook, this.kind, this.next, this.session, this.msg, this.born⟩
    · have hk' : s.n ≤ k := hk
      exact (update_of_ne (hn.trans_le hk').ne' _ _).trans (hI.unremoved k hk')
    · refine ⟨(hI.pending g k hk).1, fun t ht => ?_⟩
      rcases hremoved k t ht with rfl | ht
      · by_cases hg : g < s.frames
        · exact hearlier.frame g hg
        · have hg' : s.frame g = noFrame := hI.unmade g (not_lt.1 hg)
          exact absurd (hg' ▸ hk : k ∈ noFrame.pending) (by simp [pending_noFrame])
      · exact (hI.pending g k hk).2 t ht
    · have := hI.started a ha
      refine ⟨this.hook, this.kind, this.session, this.born, fun t ht => ?_⟩
      rcases hremoved a.hook t ht with rfl | ht
      · exact hearlier.start a ha
      · exact this.removed t ht

theorem Inv.tick (hI : Inv s) :
    Inv { s with now := s.now + 1 } ∧ Earlier { s with now := s.now + 1 } := by
  refine ⟨⟨hI.counts, hI.chain, hI.sorted, fun g hg => ?_, hI.unmade, hI.unremoved, hI.single,
    hI.pending, hI.passing, fun a ha => ?_, hI.order, hI.stale⟩,
    fun g hg => Nat.lt_succ_of_le (hI.fits g hg).born,
    fun a ha => Nat.lt_succ_of_le (hI.started a ha).born⟩
  · have := hI.fits g hg
    exact ⟨this.hook, this.kind, this.next, this.session, this.msg, Nat.le_succ_of_le this.born⟩
  · have := hI.started a ha
    exact ⟨this.hook, this.kind, this.session, Nat.le_succ_of_le this.born, this.removed⟩

theorem Inv.connect (hI : Inv s) (connected : ℕ → Bool) : Inv { s with connected } := by
  refine ⟨hI.counts, hI.chain, hI.sorted, fun g hg => ?_, hI.unmade, hI.unremoved, hI.single,
    hI.pending, hI.passing, fun a ha => ?_, hI.order, hI.stale⟩
  · have := hI.fits g hg
    exact ⟨this.hook, this.kind, this.next, this.session, this.msg, this.born⟩
  · have := hI.started a ha
    exact ⟨this.hook, this.kind, this.session, this.born, this.removed⟩

theorem Inv.next {s' : State} {act : Act} (hI : Inv s) (horderly : Orderly s act)
    (h : lts.next s act = some s') : Inv s' := by
  obtain ⟨htick, hearlier⟩ := hI.tick
  cases act with
  | setWindowsHook id tid =>
    obtain rfl := Option.some.inj h
    exact htick.setWindowsHook id tid
  | unhook k =>
    obtain rfl := Option.some.inj h
    exact htick.unhook hearlier k
  | connect tid here =>
    obtain rfl := Option.some.inj h
    exact htick.connect _
  | callFirst tid id =>
    obtain rfl := Option.some.inj h
    exact htick.callFirst tid id
  | enter f delivered => exact htick.enter h
  | goOn f => exact htick.goOn h
  | procReturn f => exact htick.procReturn h
  | dispatch f tid => exact htick.dispatch h
  | msgReturn f => exact htick.msgReturn h
  | deleteMsg f => exact htick.deleteMsg h
  | endSend f => exact htick.endSend horderly h
  | finish f => exact htick.finish h
  | callNext f hhk =>
    obtain ⟨rfl, hcalled⟩ := horderly
    exact htick.callNext hcalled h

end Operations

/-- **In a run of orderly steps the hooks are sound in every state.** -/
theorem chains_of_orderly {acts : List Act} (h : lts.AllSteps Orderly init acts) :
    lts.AllStates Sound init acts :=
  LTS.allStates_of_allSteps (I := Inv) (fun _ => Inv.sound)
    (fun _ _ _ hI hG hn => hI.next hG hn) inv_init h

/-- Two hooks of one kind, one of them of another thread; the procedures are called in turn, while
one hook is taken out, and freed when the calls of it are over. -/
def sampleActs : List Act :=
  [.connect 1 true, .connect 2 true, .setWindowsHook 1 1, .setWindowsHook 1 2, .callFirst 1 1,
    .enter 0 true, .dispatch 0 2, .callNext 0 1, .unhook 0, .enter 1 true, .dispatch 1 1,
    .msgReturn 1, .endSend 1, .finish 1, .msgReturn 0, .endSend 0, .finish 0]

theorem sound_sampleActs : (∃ s, lts.run init sampleActs = some s ∧ s.starts.length = 2 ∧
    (s.obj 0).frees = 1) ∧ lts.AllStates Sound init sampleActs :=
  ⟨⟨_, rfl, rfl, rfl⟩, chains_of_orderly (by decide)⟩

/-- The time of a call is over while its message is queued, and the procedure is started from the
data of the call that has returned; or it is over while the procedure runs, the hook is taken out
and freed, and the procedure passes it on. -/
theorem unsound_after_timeout :
    (∃ s, lts.run init [.connect 2 true, .setWindowsHook 1 2, .callFirst 1 1, .enter 0 true,
      .endSend 0, .finish 0, .dispatch 0 2] = some s ∧ s.stale = true ∧ ¬ Sound s) ∧
    ∃ s, lts.run init [.connect 2 true, .setWindowsHook 1 2, .callFirst 1 1, .enter 0 true,
      .dispatch 0 2, .endSend 0, .finish 0, .unhook 0, .callNext 0 0] = some s ∧
      (s.obj 0).misused = true ∧ ¬ Sound s := by
  refine ⟨⟨_, rfl, rfl, fun h => absurd h.data (by decide)⟩, _, rfl, rfl, fun h => ?_⟩
  exact absurd (h.lifetime 0 (by decide)).1 (by decide)

end Hook

end Swinx
