import Mathlib
import Swinx.WinEvent.Basic

/-!
# Runs with events

Each event is at one place, which tells the hooks that it has reached.  Of the events of a thread
those in the queue come after those that were taken out of it, and of two that are delivered at the
same time none has still to reach a hook that the other one has still to reach.

* `delivery_sound` — in a run of orderly steps the delivery is sound in every state.
* `overtaken` — a thread overtakes another one with a later event.
-/

namespace Swinx

namespace WinEvent

open Function (update update_of_ne update_self)

variable {pid : ℕ} {place : ℕ → Place} {s : State}

/-- The two events come from the same thread. -/
def State.Same (s : State) (num num' : ℕ) : Prop := (s.event num).tid = (s.event num').tid

/-- **The invariant of the orderly runs**, with the place of each event. -/
structure Inv (pid : ℕ) (place : ℕ → Place) (s : State) : Prop where
  /-- An event is where `place` says. -/
  holds : ∀ num pl, s.Holds num pl ↔ num < s.count ∧ place num = pl
  snapshot : ∀ num < s.count, (s.event num).matched =
    (s.hooksAt num).filter (eventMatches pid (s.event num).event (s.event num).idThread)
  later : ∀ num < s.count, ∀ hook ∈ (s.event num).handles, hook < s.nextAt num ∧
    s.nextAt num ≤ s.nextHook
  once : ∀ num < s.count, (s.event num).handles.Nodup
  handles : (s.hooks.map HookEntry.hHook).Nodup ∧ ∀ e ∈ s.hooks, e.hHook < s.nextHook
  reached : ∀ num < s.count, s.deliveredTo num = (place num).reached (s.event num).handles
  sent : ∀ d ∈ s.delivered, d.num < s.count
  /-- It is the last one of its thread. -/
  emitter : ∀ tid num, s.emitting tid = some num → (s.event num).tid = tid ∧
    ∀ k < s.count, (s.event k).tid = tid → k ≤ num
  pumps : ∀ tid, s.pump tid ≠ .idle → tid ∈ s.threads
  seqs : s.queue.Pairwise (fun a b => s.seq a < s.seq b) ∧ ∀ num ∈ s.queue, s.seq num < s.enqueued
  /-- The events of a thread are in order. -/
  queued : s.queue.Pairwise fun a b => s.Same a b → a < b
  /-- What is taken out is older than the queue. -/
  frontFiring : ∀ num ∈ s.queue, ∀ tid k i, s.pump tid = .firing k i → s.Same k num → k < num
  frontDelivered : ∀ num ∈ s.queue, ∀ d ∈ s.delivered, s.Same d.num num → d.num < num
  firing : ∀ tid num i, s.pump tid = .firing num i → ∀ hook ∈ (s.event num).handles.drop i,
    ∀ d ∈ s.delivered, s.Same d.num num → d.hook = hook → d.num < num
  /-- No two pumps have the same hook before them. -/
  disjoint : ∀ t t' num num' i i', t ≠ t' → s.pump t = .firing num i →
    s.pump t' = .firing num' i' → s.Same num num' → ∀ hook ∈ (s.event num).handles.drop i,
      hook ∉ (s.event num').handles.drop i'
  order : s.delivered.Pairwise fun a b => s.Same a.num b.num → a.hook = b.hook → a.num < b.num
  drops : ∀ d ∈ s.drops, OLEACC_EVENT_QUEUE_CAP ≤ d.queue.length ∧ d.num ∈ d.queue ∧
    ∀ num ∈ d.queue, s.seq d.num ≤ s.seq num
  past : ∀ d ∈ s.drops, ∀ num ∈ d.queue, num < s.count ∧ ∀ tid, s.emitting tid ≠ some num

theorem inv_init : Inv pid (fun _ => .done) init where
  holds := fun num pl => by
    cases pl <;> simp [State.Holds, init]
  snapshot := fun _ h => absurd h (Nat.not_lt_zero _)
  later := fun _ h => absurd h (Nat.not_lt_zero _)
  once := fun _ h => absurd h (Nat.not_lt_zero _)
  handles := ⟨.nil, fun _ h => absurd h List.not_mem_nil⟩
  reached := fun _ h => absurd h (Nat.not_lt_zero _)
  sent := fun _ h => absurd h List.not_mem_nil
  emitter := fun _ _ h => nomatch h
  pumps := fun _ h => absurd rfl h
  seqs := ⟨.nil, fun _ h => absurd h List.not_mem_nil⟩
  queued := .nil
  frontFiring := fun _ h => absurd h List.not_mem_nil
  frontDelivered := fun _ h => absurd h List.not_mem_nil
  firing := fun _ _ _ h => nomatch h
  disjoint := fun _ _ _ _ _ _ _ h => nomatch h
  order := .nil
  drops := fun _ h => absurd h List.not_mem_nil
  past := fun _ h => absurd h List.not_mem_nil

theorem Inv.sound (hI : Inv pid place s) : Sound pid s where
  snapshot := hI.snapshot
  later := hI.later
  place := fun num h => ⟨place num, (hI.holds num _).2 ⟨h, rfl⟩,
    fun pl hpl => ((hI.holds num pl).1 hpl).2.symm⟩
  exact := fun num h pl hpl => by
    rw [hI.reached num h, ((hI.holds num pl).1 hpl).2]
  once := hI.once
  order := hI.order
  drops := hI.drops

theorem Inv.move (hI : Inv pid place s) {s' : State} {num : ℕ} {dest : Place}
    (hcount : ∀ k, k ≠ num → (k < s'.count ↔ k < s.count)) (hnum : num < s'.count)
    (hdest : s'.Holds num dest) (hself : ∀ pl, s'.Holds num pl → pl = dest)
    (hrest : ∀ k pl, k ≠ num → (s'.Holds k pl ↔ s.Holds k pl)) (k : ℕ) (pl : Place) :
    s'.Holds k pl ↔ k < s'.count ∧ update place num dest k = pl := by
  by_cases hk : k = num
  · subst hk
    rw [update_self]
    exact ⟨fun h => ⟨hnum, (hself pl h).symm⟩, fun h => h.2 ▸ hdest⟩
  · rw [update_of_ne hk, hrest k pl hk, hcount k hk]
    exact hI.holds k pl

theorem Inv.reached_move (hI : Inv pid place s) {num : ℕ} {dest : Place}
    (h : dest.reached (s.event num).handles = (place num).reached (s.event num).handles) :
    ∀ k < s.count, s.deliveredTo k =
      (update place num dest k).reached (s.event k).handles := by
  intro k hk
  by_cases hkn : k = num
  · subst hkn
    rw [update_self, h]
    exact hI.reached k hk
  · rw [update_of_ne hkn]
    exact hI.reached k hk

/-! ### Hooks -/

theorem Inv.setWinEventHook (hI : Inv pid place s)
    (tid eventMin eventMax idProcess idThread dwFlags : ℕ) :
    Inv pid place (s.setWinEventHook tid eventMin eventMax idProcess idThread dwFlags) := by
  unfold State.setWinEventHook
  split_ifs
  · exact hI
  · refine { hI with
      later := fun num h hook hh => ?_
      handles := ⟨?_, fun e he => ?_⟩ }
    · obtain ⟨hlt, hle⟩ := hI.later num h hook hh
      exact ⟨hlt, hle.trans (Nat.le_succ _)⟩
    · rw [List.map_append]
      refine List.nodup_append.2 ⟨hI.handles.1, List.nodup_singleton _, fun a ha b hb => ?_⟩
      obtain ⟨e, he, rfl⟩ := List.mem_map.1 ha
      obtain rfl := List.mem_singleton.1 hb
      exact (hI.handles.2 e he).ne
    · rcases List.mem_append.1 he with he | he
      · exact (hI.handles.2 e he).trans (Nat.lt_succ_self _)
      · obtain rfl := List.mem_singleton.1 he
        exact Nat.lt_succ_self _

theorem Inv.unhookWinEvent (hI : Inv pid place s) (hook : ℕ) :
    Inv pid place (s.unhookWinEvent hook) :=
  have hsub : (s.hooks.eraseP fun e => e.hHook = hook).Sublist s.hooks := List.eraseP_sublist
  { hI with
    handles := ⟨hI.handles.1.sublist (hsub.map _), fun e he => hI.handles.2 e (hsub.subset he)⟩ }

/-! ### Notifications -/

theorem deliveredTo_of_count_le (hI : Inv pid place s) {num : ℕ} (h : s.count ≤ num) :
    s.deliveredTo num = [] := by
  unfold State.deliveredTo
  rw [List.map_eq_nil_iff, List.filter_eq_nil_iff]
  intro d hd
  have := hI.sent d hd
  simp only [decide_eq_true_eq]
  omega

theorem Inv.not_holds (hI : Inv pid place s) {num : ℕ} {pl pl' : Place} (h : s.Holds num pl)
    (hne : pl ≠ pl') : ¬ s.Holds num pl' := fun h' =>
  hne (((hI.holds num pl).1 h).2.symm.trans ((hI.holds num pl').1 h').2)

/-- An event with a snapshot of the hooks. -/
def State.emitted (s : State) (ev : Event) (emitting : ℕ → Option ℕ) (done : List ℕ) : State :=
  { s with
    count := s.count + 1
    event := update s.event s.count ev
    hooksAt := update s.hooksAt s.count s.hooks
    nextAt := update s.nextAt s.count s.nextHook
    emitting
    done }

section Emitted

variable {ev : Event} {emitting : ℕ → Option ℕ} {done : List ℕ}

theorem emitted_event_self : (s.emitted ev emitting done).event s.count = ev := update_self _ _ _

theorem emitted_event {k : ℕ} (hk : k < s.count) :
    (s.emitted ev emitting done).event k = s.event k := update_of_ne hk.ne _ _

theorem emitted_same {a b : ℕ} (ha : a < s.count) (hb : b < s.count) :
    (s.emitted ev emitting done).Same a b ↔ s.Same a b := by
  unfold State.Same
  rw [emitted_event ha, emitted_event hb]

theorem Inv.queue_lt (hI : Inv pid place s) {num : ℕ} (h : num ∈ s.queue) : num < s.count :=
  ((hI.holds num .queued).1 h).1

theorem Inv.pump_lt (hI : Inv pid place s) {tid num i : ℕ} (h : s.pump tid = .firing num i) :
    num < s.count := ((hI.holds num (.firing tid i)).1 h).1

theorem Inv.snapshot_emitted (hI : Inv pid place s)
    (hmatched : ev.matched = s.hooks.filter (eventMatches pid ev.event ev.idThread)) {num : ℕ}
    (h : num < s.count + 1) : ((s.emitted ev emitting done).event num).matched =
      ((s.emitted ev emitting done).hooksAt num).filter
        (eventMatches pid ((s.emitted ev emitting done).event num).event
          ((s.emitted ev emitting done).event num).idThread) := by
  rcases Nat.lt_succ_iff_lt_or_eq.1 h with h | rfl
  · rw [emitted_event h]
    exact (hI.snapshot num h).trans (congrArg _ (update_of_ne h.ne _ _).symm)
  · have hat : (s.emitted ev emitting done).hooksAt s.count = s.hooks := update_self _ _ _
    rw [emitted_event_self, hat]
    exact hmatched

theorem Inv.later_emitted (hI : Inv pid place s)
    (hmatched : ev.matched = s.hooks.filter (eventMatches pid ev.event ev.idThread)) {num : ℕ}
    (h : num < s.count + 1) {hook : ℕ}
    (hh : hook ∈ ((s.emitted ev emitting done).event num).handles) :
    hook < (s.emitted ev emitting done).nextAt num ∧
      (s.emitted ev emitting done).nextAt num ≤ s.nextHook := by
  rcases Nat.lt_succ_iff_lt_or_eq.1 h with h | rfl
  · rw [emitted_event h] at hh
    have hnext : (s.emitted ev emitting done).nextAt num = s.nextAt num := update_of_ne h.ne _ _
    rw [hnext]
    exact hI.later num h hook hh
  · rw [emitted_event_self] at hh
    have hnext : (s.emitted ev emitting done).nextAt s.count = s.nextHook := update_self _ _ _
    obtain ⟨e, he, rfl⟩ := List.mem_map.1 hh
    rw [hmatched] at he
    rw [hnext]
    exact ⟨hI.handles.2 e (List.mem_of_mem_filter he), le_rfl⟩

/-- The new event is the last one of its thread. -/
theorem Inv.emitter_emitted (hI : Inv pid place s) (hnone : s.emitting ev.tid = none)
    (hemitting : ∀ t num, emitting t = some num →
      s.emitting t = some num ∨ t = ev.tid ∧ num = s.count) {t num : ℕ}
    (h : emitting t = some num) : ((s.emitted ev emitting done).event num).tid = t ∧
      ∀ k < s.count + 1, ((s.emitted ev emitting done).event k).tid = t → k ≤ num := by
  rcases hemitting t num h with h | ⟨rfl, rfl⟩
  · have hnum : num < s.count := ((hI.holds num (.emitting t)).1 h).1
    obtain ⟨ht, hlast⟩ := hI.emitter t num h
    refine ⟨by rw [emitted_event hnum, ht], fun k hk hkt => ?_⟩
    rcases Nat.lt_succ_iff_lt_or_eq.1 hk with hk | rfl
    · rw [emitted_event hk] at hkt
      exact hlast k hk hkt
    · rw [emitted_event_self] at hkt
      rw [hkt] at hnone
      exact absurd (hnone.symm.trans h) (by simp)
  · exact ⟨by rw [emitted_event_self], fun k hk _ => Nat.le_of_lt_succ hk⟩

/-- What is delivered now is as it was. -/
theorem Inv.disjoint_emitted (hI : Inv pid place s) {t t' num num' i i' : ℕ} (hne : t ≠ t')
    (hp : s.pump t = .firing num i) (hp' : s.pump t' = .firing num' i')
    (hs : (s.emitted ev emitting done).Same num num') {hook : ℕ}
    (hh : hook ∈ ((s.emitted ev emitting done).event num).handles.drop i) :
    hook ∉ ((s.emitted ev emitting done).event num').handles.drop i' := by
  have hnum := hI.pump_lt hp
  have hnum' := hI.pump_lt hp'
  rw [emitted_event hnum] at hh
  rw [emitted_event hnum']
  exact hI.disjoint t t' num num' i i' hne hp hp' ((emitted_same hnum hnum').1 hs) hook hh

end Emitted

/-- **An event is emitted**: what is said of the others is as it was, and nothing is delivered. -/
theorem Inv.emitted (hI : Inv pid place s) (ev : Event) {emitting : ℕ → Option ℕ}
    {done : List ℕ} {pl : Place} (hnone : s.emitting ev.tid = none)
    (hmatched : ev.matched = s.hooks.filter (eventMatches pid ev.event ev.idThread))
    (hreached : pl.reached ev.handles = [])
    (hemitting : ∀ t num, emitting t = some num →
      s.emitting t = some num ∨ t = ev.tid ∧ num = s.count)
    (hholds : ∀ num pl', (s.emitted ev emitting done).Holds num pl' ↔
      num < s.count + 1 ∧ update place s.count pl num = pl') :
    Inv pid (update place s.count pl) (s.emitted ev emitting done) where
  holds := hholds
  snapshot _ h := hI.snapshot_emitted hmatched h
  later _ h _ hh := hI.later_emitted hmatched h hh
  once num h := by
    rcases Nat.lt_succ_iff_lt_or_eq.1 h with h | rfl
    · rw [emitted_event h]
      exact hI.once num h
    · rw [emitted_event_self, Event.handles, hmatched]
      exact hI.handles.1.sublist (List.filter_sublist.map _)
  handles := hI.handles
  reached num h := by
    rcases Nat.lt_succ_iff_lt_or_eq.1 h with h | rfl
    · rw [emitted_event h, update_of_ne h.ne]
      exact hI.reached num h
    · rw [emitted_event_self, update_self, hreached]
      exact deliveredTo_of_count_le hI le_rfl
  sent d hd := (hI.sent d hd).trans (Nat.lt_succ_self _)
  emitter _ _ h := hI.emitter_emitted hnone hemitting h
  pumps := hI.pumps
  seqs := hI.seqs
  queued := hI.queued.imp_of_mem fun ha hb h hs =>
    h ((emitted_same (hI.queue_lt ha) (hI.queue_lt hb)).1 hs)
  frontFiring num hnum tid k i hk hs :=
    hI.frontFiring num hnum tid k i hk ((emitted_same (hI.pump_lt hk) (hI.queue_lt hnum)).1 hs)
  frontDelivered num hnum d hd hs :=
    hI.frontDelivered num hnum d hd ((emitted_same (hI.sent d hd) (hI.queue_lt hnum)).1 hs)
  firing tid num i hp hook hh d hd hs := by
    rw [emitted_event (hI.pump_lt hp)] at hh
    exact hI.firing tid num i hp hook hh d hd ((emitted_same (hI.sent d hd) (hI.pump_lt hp)).1 hs)
  disjoint _ _ _ _ _ _ hne hp hp' hs _ hh := hI.disjoint_emitted hne hp hp' hs hh
  order := hI.order.imp_of_mem fun ha hb h hs =>
    h ((emitted_same (hI.sent _ ha) (hI.sent _ hb)).1 hs)
  drops := hI.drops
  past d hd num hnum := by
    obtain ⟨hlt, hno⟩ := hI.past d hd num hnum
    refine ⟨hlt.trans (Nat.lt_succ_self _), fun tid h => ?_⟩
    rcases hemitting tid num h with h | ⟨-, rfl⟩
    · exact hno tid h
    · exact lt_irrefl _ hlt

theorem Inv.notify (hI : Inv pid place s) {tid event hwnd : ℕ} {idObject idChild : ℤ} {time : ℕ}
    {s' : State} (h : s.notify pid tid event hwnd idObject idChild time = some s') :
    ∃ place', Inv pid place' s' := by
  unfold State.notify at h
  simp only [Option.ite_none_right_eq_some] at h
  obtain ⟨hnone, h⟩ := h
  have hnew : ∀ pl, ¬ s.Holds s.count pl := fun pl h =>
    lt_irrefl _ ((hI.holds s.count pl).1 h).1
  have hcount : ∀ k, k ≠ s.count → (k < s.count + 1 ↔ k < s.count) := fun k hk => by omega
  split_ifs at h with hmatched
  · obtain rfl := Option.some.inj h
    refine ⟨update place s.count .done,
      hI.emitted ⟨tid, event, hwnd, idObject, idChild, dwThread tid, time, _⟩ hnone rfl ?_
        (fun t num h => .inl h) (hI.move hcount (Nat.lt_succ_self _) List.mem_cons_self
          (fun pl hpl => ?_) fun k pl hk => ?_)⟩
    · simp [Place.reached, Event.handles, hmatched]
    · cases pl with
      | done => rfl
      | emitting t => exact absurd hpl (hnew (.emitting t))
      | queued => exact absurd hpl (hnew .queued)
      | firing t i => exact absurd hpl (hnew (.firing t i))
      | dropped => exact absurd hpl (hnew .dropped)
    · cases pl with
      | done => exact List.mem_cons.trans (or_iff_right hk)
      | _ => exact Iff.rfl
  · obtain rfl := Option.some.inj h
    refine ⟨update place s.count (.emitting tid),
      hI.emitted ⟨tid, event, hwnd, idObject, idChild, dwThread tid, time, _⟩ hnone rfl rfl
        (fun t num h => ?_) (hI.move hcount (Nat.lt_succ_self _) (update_self _ _ _)
          (fun pl hpl => ?_) fun k pl hk => ?_)⟩
    · by_cases ht : t = tid
      · subst ht
        simp only [update_self, Option.some.injEq] at h
        exact .inr ⟨rfl, h.symm⟩
      · rw [update_of_ne ht] at h
        exact .inl h
    · cases pl with
      | emitting t =>
        by_cases ht : t = tid
        · rw [ht]
        · exact absurd ((update_of_ne ht _ _).symm.trans hpl) (hnew (.emitting t))
      | queued => exact absurd hpl (hnew .queued)
      | firing t i => exact absurd hpl (hnew (.firing t i))
      | done => exact absurd hpl (hnew .done)
      | dropped => exact absurd hpl (hnew .dropped)
    · cases pl with
      | emitting t =>
        change update s.emitting tid (some s.count) t = some k ↔ s.emitting t = some k
        by_cases ht : t = tid
        · subst ht
          rw [update_self, hnone]
          simpa using Ne.symm hk
        · rw [update_of_ne ht]
      | _ => exact Iff.rfl

theorem Inv.makeRoom (hI : Inv pid place s) : ∃ place', Inv pid place' s.makeRoom := by
  unfold State.makeRoom
  split
  case h_1 => exact ⟨place, hI⟩
  case h_2 num queue hqueue =>
    split_ifs with hfull
    case neg => exact ⟨place, hI⟩
    have hmem : ∀ k, k ∈ s.queue ↔ k = num ∨ k ∈ queue := fun k => by rw [hqueue, List.mem_cons]
    have hheld : s.Holds num .queued := (hmem num).2 (.inl rfl)
    have hnum := (hI.holds num .queued).1 hheld
    have hseqs := hI.seqs
    have hqueued := hI.queued
    rw [hqueue, List.pairwise_cons] at hseqs hqueued
    have hnot : num ∉ queue := fun h => lt_irrefl _ (hseqs.1.1 num h)
    have hother : ∀ pl, .queued ≠ pl → ¬ s.Holds num pl := fun pl => hI.not_holds hheld
    refine ⟨update place num .dropped, { hI with
      holds := hI.move (fun _ _ => Iff.rfl) hnum.1 ⟨_, List.mem_cons_self, rfl⟩
        (fun pl hpl => ?_) fun k pl hk => ?_
      reached := hI.reached_move (by rw [hnum.2]; rfl)
      seqs := ⟨hseqs.1.2, fun k hk => hI.seqs.2 k ((hmem k).2 (.inr hk))⟩
      queued := hqueued.2
      frontFiring := fun k hk => hI.frontFiring k ((hmem k).2 (.inr hk))
      frontDelivered := fun k hk => hI.frontDelivered k ((hmem k).2 (.inr hk))
      drops := fun d hd => ?_
      past := fun d hd => ?_ }⟩
    · cases pl with
      | dropped => rfl
      | queued => exact absurd hpl hnot
      | emitting t => exact absurd hpl (hother (.emitting t) (by simp))
      | firing t i => exact absurd hpl (hother (.firing t i) (by simp))
      | done => exact absurd hpl (hother .done (by simp))
    · cases pl with
      | dropped =>
        change (∃ d ∈ (⟨num, s.queue⟩ : Drop) :: s.drops, d.num = k) ↔ ∃ d ∈ s.drops, d.num = k
        simp [Ne.symm hk]
      | queued =>
        change k ∈ queue ↔ k ∈ s.queue
        rw [hmem]
        exact (or_iff_right hk).symm
      | _ => exact Iff.rfl
    · rcases List.mem_cons.1 hd with rfl | hd
      · refine ⟨hfull, (hmem num).2 (.inl rfl), fun k hk => ?_⟩
        rcases (hmem k).1 hk with rfl | hk
        · exact le_rfl
        · exact (hseqs.1.1 k hk).le
      · exact hI.drops d hd
    · rcases List.mem_cons.1 hd with rfl | hd
      · intro k hk
        have hk : s.Holds k .queued := hk
        have hno : ∀ tid, ¬ s.Holds k (.emitting tid) := fun tid => hI.not_holds hk (by simp)
        exact ⟨((hI.holds k .queued).1 hk).1, hno⟩
      · exact hI.past d hd

theorem makeRoom_emitting (s : State) : s.makeRoom.emitting = s.emitting := by
  unfold State.makeRoom
  split
  · rfl
  · split_ifs <;> rfl

/-- The event of a thread is put at the end of the queue. -/
def State.pushed (s : State) (tid num : ℕ) : State :=
  { s with
    queue := s.queue ++ [num]
    emitting := update s.emitting tid none
    seq := update s.seq num s.enqueued
    enqueued := s.enqueued + 1 }

theorem Inv.pushed (hI : Inv pid place s) {tid num : ℕ} (hemit : s.emitting tid = some num) :
    Inv pid (update place num .queued) (s.pushed tid num) := by
  have hheld : s.Holds num (.emitting tid) := hemit
  have hnum := (hI.holds num _).1 hheld
  have hother : ∀ pl, .emitting tid ≠ pl → ¬ s.Holds num pl := fun pl => hI.not_holds hheld
  have hnot : num ∉ s.queue := hother .queued (by simp)
  obtain ⟨htid, hlast⟩ := hI.emitter tid num hemit
  have hle : ∀ k < s.count, s.Same k num → k ≤ num := fun k hk hs => hlast k hk (hs.trans htid)
  have hnone : s.deliveredTo num = [] := by
    rw [hI.reached num hnum.1, hnum.2]
    rfl
  have hunsent : ∀ d ∈ s.delivered, d.num ≠ num := by
    intro d hd hdn
    rw [State.deliveredTo, List.map_eq_nil_iff, List.filter_eq_nil_iff] at hnone
    exact hnone d hd (by simpa using hdn)
  have hemitting : ∀ t k, (s.pushed tid num).emitting t = some k → s.emitting t = some k := by
    intro t k h
    by_cases ht : t = tid
    · subst ht
      exact absurd ((update_self _ _ _).symm.trans h) (by simp)
    · exact (update_of_ne ht _ _).symm.trans h
  have hseq : ∀ k, k ≠ num → (s.pushed tid num).seq k = s.seq k :=
    fun k hk => update_of_ne hk _ _
  have hseqNew : (s.pushed tid num).seq num = s.enqueued := update_self _ _ _
  have hmem : ∀ k ∈ s.queue, k ≠ num := fun k hk h => hnot (h ▸ hk)
  refine { hI with
    holds := hI.move (fun _ _ => Iff.rfl) hnum.1
      (List.mem_append_right _ (List.mem_singleton_self _)) (fun pl hpl => ?_) fun k pl hk => ?_
    reached := hI.reached_move (by rw [hnum.2]; rfl)
    emitter := fun t k h => hI.emitter t k (hemitting t k h)
    seqs := ⟨List.pairwise_append.2 ⟨?_, List.pairwise_singleton _ _, ?_⟩, ?_⟩
    queued := List.pairwise_append.2 ⟨hI.queued, List.pairwise_singleton _ _, ?_⟩
    frontFiring := ?_
    frontDelivered := ?_
    drops := ?_
    past := fun d hd k hk => ?_ }
  · cases pl with
    | queued => rfl
    | emitting t =>
      have ht : s.Holds num (.emitting t) := hemitting t num hpl
      by_cases htt : t = tid
      · subst htt
        exact absurd ((update_self _ _ _).symm.trans hpl) (by simp)
      · exact absurd ht (hother (.emitting t) (by simpa using Ne.symm htt))
    | firing t i => exact absurd hpl (hother (.firing t i) (by simp))
    | done => exact absurd hpl (hother .done (by simp))
    | dropped => exact absurd hpl (hother .dropped (by simp))
  · cases pl with
    | emitting t =>
      refine ⟨hemitting t k, fun h => ?_⟩
      by_cases ht : t = tid
      · subst ht
        exact absurd (Option.some.inj (hemit.symm.trans h)).symm hk
      · exact (update_of_ne ht _ _).trans h
    | queued =>
      exact List.mem_append.trans (or_iff_left fun h => hk (List.mem_singleton.1 h))
    | _ => exact Iff.rfl
  · refine hI.seqs.1.imp_of_mem fun {a b} ha hb h => ?_
    rw [hseq a (hmem a ha), hseq b (hmem b hb)]
    exact h
  · intro a ha b hb
    obtain rfl := List.mem_singleton.1 hb
    rw [hseq a (hmem a ha)]
    rw [hseqNew]
    exact hI.seqs.2 a ha
  · intro k hk
    change _ < s.enqueued + 1
    rcases List.mem_append.1 hk with hk | hk
    · rw [hseq k (hmem k hk)]
      exact (hI.seqs.2 k hk).trans (Nat.lt_succ_self _)
    · obtain rfl := List.mem_singleton.1 hk
      rw [hseqNew]
      exact Nat.lt_succ_self _
  · intro a ha b hb hs
    obtain rfl := List.mem_singleton.1 hb
    exact (hle a ((hI.holds a .queued).1 ha).1 hs).lt_of_ne (hmem a ha)
  · intro k hk t k' i hp hs
    rcases List.mem_append.1 hk with hk | hk
    · exact hI.frontFiring k hk t k' i hp hs
    · obtain rfl := List.mem_singleton.1 hk
      have hp : s.Holds k' (.firing t i) := hp
      refine (hle k' ((hI.holds k' _).1 hp).1 hs).lt_of_ne fun h => ?_
      exact hother (.firing t i) (by simp) (h ▸ hp)
  · intro k hk d hd hs
    rcases List.mem_append.1 hk with hk | hk
    · exact hI.frontDelivered k hk d hd hs
    · obtain rfl := List.mem_singleton.1 hk
      exact (hle d.num (hI.sent d hd) hs).lt_of_ne (hunsent d hd)
  · intro d hd
    obtain ⟨hfull, hin, hold⟩ := hI.drops d hd
    have hne : ∀ k ∈ d.queue, k ≠ num := fun k hk h => (hI.past d hd k hk).2 tid (h ▸ hemit)
    refine ⟨hfull, hin, fun k hk => ?_⟩
    rw [hseq _ (hne _ hin), hseq k (hne k hk)]
    exact hold k hk
  · obtain ⟨hlt, hno⟩ := hI.past d hd k hk
    exact ⟨hlt, fun t h => hno t (hemitting t k h)⟩

theorem Inv.enqueue (hI : Inv pid place s) {tid : ℕ} {s' : State}
    (h : s.enqueue tid = some s') : ∃ place', Inv pid place' s' := by
  unfold State.enqueue at h
  split at h
  case h_1 => cases h
  case h_2 num hemit =>
    obtain rfl := Option.some.inj h
    obtain ⟨place', hI'⟩ := hI.makeRoom
    rw [← makeRoom_emitting] at hemit
    exact ⟨_, hI'.pushed hemit⟩

/-! ### The pumps -/

/-- A pump that delivers nothing has changed to one that delivers nothing. -/
theorem Inv.looks (hI : Inv pid place s) {tid : ℕ} {pump : Pump} {threads : List ℕ}
    (hold : ∀ num i, s.pump tid ≠ .firing num i) (hnew : ∀ num i, pump ≠ .firing num i)
    (hthreads : ∀ t ∈ s.threads, t ∈ threads) (htid : pump ≠ .idle → tid ∈ threads) :
    Inv pid place { s with pump := update s.pump tid pump, threads } := by
  have hpump : ∀ t num i, update s.pump tid pump t = .firing num i ↔
      s.pump t = .firing num i := by
    intro t num i
    by_cases ht : t = tid
    · subst ht
      rw [update_self]
      exact iff_of_false (hnew num i) (hold num i)
    · rw [update_of_ne ht]
  refine { hI with
    holds := fun num pl => ?_
    pumps := fun t h => ?_
    frontFiring := fun num hnum t k i hp => hI.frontFiring num hnum t k i ((hpump t k i).1 hp)
    firing := fun t num i hp => hI.firing t num i ((hpump t num i).1 hp)
    disjoint := fun t t' num num' i i' hne hp hp' =>
      hI.disjoint t t' num num' i i' hne ((hpump t num i).1 hp) ((hpump t' num' i').1 hp') }
  · rw [← hI.holds num pl]
    cases pl with
    | firing t i => exact hpump t num i
    | _ => exact Iff.rfl
  · by_cases ht : t = tid
    · subst ht
      exact htid ((update_self t pump s.pump).symm.trans_ne h)
    · exact hthreads t (hI.pumps t ((update_of_ne ht _ _).symm.trans_ne h))

theorem Inv.enter (hI : Inv pid place s) (tid : ℕ) : Inv pid place (s.enter tid) := by
  unfold State.enter
  split_ifs with h
  · exact hI.looks (by simp [h]) (by simp) (fun t ht => List.mem_cons_of_mem tid ht)
      fun _ => List.mem_cons_self
  · exact hI

theorem Inv.take (hI : Inv pid place s) {tid num : ℕ} {queue : List ℕ}
    (hlooking : s.pump tid = .looking) (hqueue : s.queue = num :: queue)
    (hclear : ∀ t ∈ s.threads, s.Clear num (s.pump t)) :
    Inv pid (update place num (.firing tid 0))
      { s with queue, pump := update s.pump tid (.firing num 0) } := by
  have hmem : ∀ k, k ∈ s.queue ↔ k = num ∨ k ∈ queue := fun k => by rw [hqueue, List.mem_cons]
  have hheld : s.Holds num .queued := (hmem num).2 (.inl rfl)
  have hnum := (hI.holds num .queued).1 hheld
  have hseqs := hI.seqs
  have hqueued := hI.queued
  rw [hqueue, List.pairwise_cons] at hseqs hqueued
  have hnot : num ∉ queue := fun h => lt_irrefl _ (hseqs.1.1 num h)
  have hother : ∀ pl, .queued ≠ pl → ¬ s.Holds num pl := fun pl => hI.not_holds hheld
  have hself : update s.pump tid (.firing num 0) tid = .firing num 0 :=
    update_self _ _ _
  have hpump : ∀ t, t ≠ tid → update s.pump tid (.firing num 0) t = s.pump t :=
    fun t ht => update_of_ne ht _ _
  have hclear' : ∀ t k i, s.pump t = .firing k i → s.Same k num →
      ∀ hook ∈ (s.event k).handles.drop i, hook ∉ (s.event num).handles := by
    intro t k i hp
    have := hclear t (hI.pumps t (by simp [hp]))
    rw [hp] at this
    exact this
  refine { hI with
    holds := hI.move (fun _ _ => Iff.rfl) hnum.1 hself (fun pl hpl => ?_) fun k pl hk => ?_
    reached := hI.reached_move (by rw [hnum.2]; rfl)
    pumps := fun t h => ?_
    seqs := ⟨hseqs.1.2, fun k hk => hI.seqs.2 k ((hmem k).2 (.inr hk))⟩
    queued := hqueued.2
    frontFiring := fun k hk t k' i hp hs => ?_
    frontDelivered := fun k hk => hI.frontDelivered k ((hmem k).2 (.inr hk))
    firing := fun t k i hp hook hh d hd hs heq => ?_
    disjoint := fun t t' k k' i i' hne hp hp' hs hook hh => ?_ }
  · cases pl with
    | firing t i =>
      by_cases ht : t = tid
      · subst ht
        have hpl : Pump.firing num 0 = .firing num i := hself.symm.trans hpl
        rw [(Pump.firing.inj hpl).2]
      · exact absurd ((hpump t ht).symm.trans hpl) (hother (.firing t i) (by simp))
    | queued => exact absurd hpl hnot
    | emitting t => exact absurd hpl (hother (.emitting t) (by simp))
    | done => exact absurd hpl (hother .done (by simp))
    | dropped => exact absurd hpl (hother .dropped (by simp))
  · cases pl with
    | firing t i =>
      change update s.pump tid (.firing num 0) t = .firing k i ↔ s.pump t = .firing k i
      by_cases ht : t = tid
      · subst ht
        rw [hself, hlooking]
        simpa using fun h : num = k => absurd h.symm hk
      · rw [hpump t ht]
    | queued =>
      change k ∈ queue ↔ k ∈ s.queue
      rw [hmem]
      exact (or_iff_right hk).symm
    | _ => exact Iff.rfl
  · by_cases ht : t = tid
    · subst ht
      exact hI.pumps t (by simp [hlooking])
    · exact hI.pumps t ((hpump t ht).symm.trans_ne h)
  · by_cases ht : t = tid
    · subst ht
      obtain ⟨rfl, -⟩ := Pump.firing.inj (hself.symm.trans hp)
      exact hqueued.1 k hk hs
    · exact hI.frontFiring k ((hmem k).2 (.inr hk)) t k' i ((hpump t ht).symm.trans hp) hs
  · by_cases ht : t = tid
    · subst ht
      obtain ⟨rfl, -⟩ := Pump.firing.inj (hself.symm.trans hp)
      exact hI.frontDelivered num hheld d hd hs
    · exact hI.firing t k i ((hpump t ht).symm.trans hp) hook hh d hd hs heq
  · by_cases ht : t = tid
    · subst ht
      obtain ⟨rfl, rfl⟩ := Pump.firing.inj (hself.symm.trans hp)
      have hp' := (hpump t' hne.symm).symm.trans hp'
      exact fun hh' => hclear' t' k' i' hp' hs.symm hook hh' hh
    · have hold : s.pump t = .firing k i := (hpump t ht).symm.trans hp
      by_cases ht' : t' = tid
      · subst ht'
        obtain ⟨rfl, rfl⟩ := Pump.firing.inj (hself.symm.trans hp')
        exact hclear' t k i hold hs hook hh
      · exact hI.disjoint t t' k k' i i' hne hold ((hpump t' ht').symm.trans hp') hs hook hh

theorem Inv.pop (hI : Inv pid place s) {tid : ℕ} (ho : Orderly s (.pop tid)) {s' : State}
    (h : s.pop tid = some s') : ∃ place', Inv pid place' s' := by
  unfold State.pop at h
  simp only [Option.ite_none_right_eq_some] at h
  obtain ⟨hlooking, h⟩ := h
  split at h
  case h_1 hqueue =>
    obtain rfl := Option.some.inj h
    exact ⟨place, hI.looks (by simp [hlooking]) (by simp) (fun _ ht => ht) (absurd rfl)⟩
  case h_2 num queue hqueue =>
    obtain rfl := Option.some.inj h
    exact ⟨_, hI.take hlooking hqueue (ho hlooking num (by simp [hqueue]))⟩

/-- A procedure has been called. -/
def State.called (s : State) (tid num i hook : ℕ) : State :=
  { s with
    delivered := s.delivered ++ [⟨num, hook⟩]
    pump := update s.pump tid (.firing num (i + 1)) }

theorem deliveredTo_called (s : State) (tid num i hook k : ℕ) :
    (s.called tid num i hook).deliveredTo k =
      s.deliveredTo k ++ if num = k then [hook] else [] := by
  unfold State.deliveredTo State.called
  rw [List.filter_append, List.map_append, List.filter_singleton]
  split_ifs <;> simp_all

theorem Inv.called (hI : Inv pid place s) {tid num i hook : ℕ}
    (hfiring : s.pump tid = .firing num i) (hhook : (s.event num).handles[i]? = some hook) :
    Inv pid (update place num (.firing tid (i + 1))) (s.called tid num i hook) := by
  have hheld : s.Holds num (.firing tid i) := hfiring
  have hnum := (hI.holds num _).1 hheld
  have hother : ∀ pl, .firing tid i ≠ pl → ¬ s.Holds num pl := fun pl => hI.not_holds hheld
  obtain ⟨hi, rfl⟩ := List.getElem?_eq_some_iff.1 hhook
  have hdrop : (s.event num).handles.drop i =
      (s.event num).handles[i] :: (s.event num).handles.drop (i + 1) :=
    List.drop_eq_getElem_cons hi
  have hleft : ∀ h ∈ (s.event num).handles.drop (i + 1), h ∈ (s.event num).handles.drop i :=
    fun h hh => hdrop ▸ List.mem_cons_of_mem _ hh
  have hfirst : (s.event num).handles[i] ∈ (s.event num).handles.drop i :=
    hdrop ▸ List.mem_cons_self
  have hgone : (s.event num).handles[i] ∉ (s.event num).handles.drop (i + 1) := by
    have hnodup := (hI.once num hnum.1).sublist (List.drop_sublist i _)
    rw [hdrop, List.nodup_cons] at hnodup
    exact hnodup.1
  set hook := (s.event num).handles[i]
  have hself : update s.pump tid (.firing num (i + 1)) tid = .firing num (i + 1) :=
    update_self _ _ _
  have hpump : ∀ t, t ≠ tid → update s.pump tid (.firing num (i + 1)) t = s.pump t :=
    fun t ht => update_of_ne ht _ _
  -- What a pump has still to deliver, it had to deliver before the call.
  have hbefore : ∀ t k j, (s.called tid num i hook).pump t = .firing k j → ∃ j',
      s.pump t = .firing k j' ∧
        ∀ h ∈ (s.event k).handles.drop j, h ∈ (s.event k).handles.drop j' := by
    intro t k j hp
    by_cases ht : t = tid
    · subst ht
      obtain ⟨rfl, rfl⟩ := Pump.firing.inj (hself.symm.trans hp)
      exact ⟨i, hfiring, hleft⟩
    · exact ⟨j, (hpump t ht).symm.trans hp, fun _ h => h⟩
  refine { hI with
    holds := hI.move (fun _ _ => Iff.rfl) hnum.1 hself (fun pl hpl => ?_) fun k pl hk => ?_
    reached := fun k hk => ?_
    sent := fun d hd => ?_
    pumps := fun t h => ?_
    frontFiring := fun k hk t k' j hp => ?_
    frontDelivered := fun k hk d hd hs => ?_
    firing := fun t k j hp h hh d hd hs heq => ?_
    disjoint := fun t t' k k' j j' hne hp hp' hs h hh hh' => ?_
    order := List.pairwise_append.2 ⟨hI.order, List.pairwise_singleton _ _, fun d hd d' hd' => ?_⟩ }
  · cases pl with
    | firing t j =>
      by_cases ht : t = tid
      · subst ht
        have hpl : Pump.firing num (i + 1) = .firing num j := hself.symm.trans hpl
        rw [(Pump.firing.inj hpl).2]
      · exact absurd ((hpump t ht).symm.trans hpl)
          (hother (.firing t j) (by simpa using fun h : tid = t => absurd h.symm ht))
    | queued => exact absurd hpl (hother .queued (by simp))
    | emitting t => exact absurd hpl (hother (.emitting t) (by simp))
    | done => exact absurd hpl (hother .done (by simp))
    | dropped => exact absurd hpl (hother .dropped (by simp))
  · cases pl with
    | firing t j =>
      change update s.pump tid (.firing num (i + 1)) t = .firing k j ↔
        s.pump t = .firing k j
      by_cases ht : t = tid
      · subst ht
        rw [hself, hfiring]
        simp [Ne.symm hk]
      · rw [hpump t ht]
    | _ => exact Iff.rfl
  · rw [deliveredTo_called, hI.reached k hk]
    by_cases hkn : k = num
    · subst hkn
      rw [update_self, if_pos rfl, hnum.2]
      exact (List.take_succ_eq_append_getElem hi).symm
    · rw [update_of_ne hkn, if_neg (Ne.symm hkn), List.append_nil]
      rfl
  · rcases List.mem_append.1 hd with hd | hd
    · exact hI.sent d hd
    · obtain rfl := List.mem_singleton.1 hd
      exact hnum.1
  · by_cases ht : t = tid
    · subst ht
      exact hI.pumps t (by simp [hfiring])
    · exact hI.pumps t ((hpump t ht).symm.trans_ne h)
  · obtain ⟨j', hp, -⟩ := hbefore t k' j hp
    exact hI.frontFiring k hk t k' j' hp
  · rcases List.mem_append.1 hd with hd | hd
    · exact hI.frontDelivered k hk d hd hs
    · obtain rfl := List.mem_singleton.1 hd
      exact hI.frontFiring k hk tid num i hfiring hs
  · obtain ⟨j', hp', hsub⟩ := hbefore t k j hp
    rcases List.mem_append.1 hd with hd | hd
    · exact hI.firing t k j' hp' h (hsub h hh) d hd hs heq
    · obtain rfl := List.mem_singleton.1 hd
      obtain rfl : hook = h := heq
      by_cases ht : t = tid
      · subst ht
        obtain ⟨rfl, rfl⟩ := Pump.firing.inj (hself.symm.trans hp)
        exact absurd hh hgone
      · exact absurd (hsub hook hh)
          (hI.disjoint tid t num k i j' (Ne.symm ht) hfiring hp' hs hook hfirst)
  · obtain ⟨i₁, hp, hsub⟩ := hbefore t k j hp
    obtain ⟨i₂, hp', hsub'⟩ := hbefore t' k' j' hp'
    exact hI.disjoint t t' k k' i₁ i₂ hne hp hp' hs h (hsub h hh) (hsub' h hh')
  · intro hs heq
    obtain rfl := List.mem_singleton.1 hd'
    exact hI.firing tid num i hfiring hook hfirst d hd hs heq

theorem Inv.returned (hI : Inv pid place s) {tid num i : ℕ}
    (hfiring : s.pump tid = .firing num i) (hi : (s.event num).handles.length ≤ i) :
    Inv pid (update place num .done)
      { s with
        done := num :: s.done
        pump := update s.pump tid .looking } := by
  have hheld : s.Holds num (.firing tid i) := hfiring
  have hnum := (hI.holds num _).1 hheld
  have hother : ∀ pl, .firing tid i ≠ pl → ¬ s.Holds num pl := fun pl => hI.not_holds hheld
  have hpump : ∀ t k j, update s.pump tid .looking t = .firing k j →
      t ≠ tid ∧ s.pump t = .firing k j := by
    intro t k j hp
    by_cases ht : t = tid
    · subst ht
      rw [update_self] at hp
      cases hp
    · exact ⟨ht, (update_of_ne ht _ _).symm.trans hp⟩
  refine { hI with
    holds := hI.move (fun _ _ => Iff.rfl) hnum.1 List.mem_cons_self (fun pl hpl => ?_)
      fun k pl hk => ?_
    reached := hI.reached_move (by rw [hnum.2]; exact (List.take_of_length_le hi).symm)
    pumps := fun t h => ?_
    frontFiring := fun k hk t k' j hp => hI.frontFiring k hk t k' j (hpump t k' j hp).2
    firing := fun t k j hp => hI.firing t k j (hpump t k j hp).2
    disjoint := fun t t' k k' j j' hne hp hp' =>
      hI.disjoint t t' k k' j j' hne (hpump t k j hp).2 (hpump t' k' j' hp').2 }
  · cases pl with
    | done => rfl
    | firing t j =>
      obtain ⟨ht, hp⟩ := hpump t num j hpl
      exact absurd hp (hother (.firing t j) (by simpa using fun h : tid = t => absurd h.symm ht))
    | queued => exact absurd hpl (hother .queued (by simp))
    | emitting t => exact absurd hpl (hother (.emitting t) (by simp))
    | dropped => exact absurd hpl (hother .dropped (by simp))
  · cases pl with
    | firing t j =>
      refine ⟨fun hp => (hpump t k j hp).2, fun hp => ?_⟩
      by_cases ht : t = tid
      · subst ht
        exact absurd (Pump.firing.inj (hfiring.symm.trans hp)).1.symm hk
      · exact (update_of_ne ht _ _).trans hp
    | done => exact List.mem_cons.trans (or_iff_right hk)
    | _ => exact Iff.rfl
  · by_cases ht : t = tid
    · subst ht
      exact hI.pumps t (by simp [hfiring])
    · exact hI.pumps t ((update_of_ne ht _ _).symm.trans_ne h)

theorem Inv.fire (hI : Inv pid place s) {tid : ℕ} {s' : State} (h : s.fire tid = some s') :
    ∃ place', Inv pid place' s' := by
  unfold State.fire at h
  split at h
  case h_2 => cases h
  case h_1 num i hfiring =>
    split at h
    case h_1 e he =>
      obtain rfl := Option.some.inj h
      exact ⟨_, hI.called hfiring (by rw [Event.handles, List.getElem?_map, he]; rfl)⟩
    case h_2 hnone =>
      obtain rfl := Option.some.inj h
      refine ⟨_, hI.returned hfiring ?_⟩
      rw [Event.handles, List.length_map]
      exact List.getElem?_eq_none_iff.1 hnone

theorem Inv.next (hI : Inv pid place s) {act : Act} (ho : Orderly s act) {s' : State}
    (h : next pid s act = some s') : ∃ place', Inv pid place' s' := by
  cases act with
  | setWinEventHook tid eventMin eventMax idProcess idThread dwFlags =>
    obtain rfl := Option.some.inj h
    exact ⟨place, hI.setWinEventHook tid eventMin eventMax idProcess idThread dwFlags⟩
  | unhookWinEvent hook =>
    obtain rfl := Option.some.inj h
    exact ⟨place, hI.unhookWinEvent hook⟩
  | notify tid event hwnd idObject idChild time => exact hI.notify h
  | enqueue tid => exact hI.enqueue h
  | enter tid =>
    obtain rfl := Option.some.inj h
    exact ⟨place, hI.enter tid⟩
  | pop tid => exact hI.pop ho h
  | fire tid => exact hI.fire h

/-- **The delivery in orderly runs.** -/
theorem delivery_sound (pid : ℕ) (acts : List Act)
    (h : (lts pid).AllSteps Orderly init acts) : (lts pid).AllStates (Sound pid) init acts :=
  LTS.allStates_of_allSteps (I := fun s => ∃ place, Inv pid place s)
    (fun _ ⟨_, hI⟩ => hI.sound) (fun _ _ _ ⟨_, hI⟩ ho hn => hI.next ho hn) ⟨_, inv_init⟩ h

/-- A hook, and two events of the thread 3 that the thread 1 delivers.  The procedure of the first
one emits an event and pumps messages. -/
def sampleActs : List Act :=
  [.setWinEventHook 1 0 10 0 0 0, .notify 3 5 7 0 0 100, .setWinEventHook 2 0 10 0 0 0,
    .enqueue 3, .notify 3 6 7 0 0 101, .enqueue 3, .enter 1, .pop 1, .fire 1, .notify 1 2 7 0 0 102,
    .enqueue 1, .enter 1, .unhookWinEvent 1, .fire 1, .pop 1, .fire 1, .fire 1, .fire 1, .pop 1,
    .fire 1, .fire 1, .fire 1, .pop 1]

theorem delivery_sound_sample : (lts 1).AllStates (Sound 1) init sampleActs :=
  delivery_sound 1 sampleActs (by decide)

/-- When nothing is queued and nobody dispatches, each event was dropped or has reached the hooks
of its snapshot. -/
theorem Sound.delivered_when_quiet (h : Sound pid s) (hemitting : ∀ tid, s.emitting tid = none)
    (hqueue : s.queue = []) (hpump : ∀ tid num i, s.pump tid ≠ .firing num i) {num : ℕ}
    (hnum : num < s.count) :
    (∃ d ∈ s.drops, d.num = num) ∨ s.deliveredTo num = (s.event num).handles := by
  obtain ⟨pl, hpl, -⟩ := h.place num hnum
  cases pl with
  | emitting tid => exact absurd (hpl.symm.trans (hemitting tid)) (by simp)
  | queued => exact absurd hpl (by simp [State.Holds, hqueue])
  | firing tid i => exact absurd hpl (hpump tid num i)
  | done => exact .inr (h.exact num hnum .done hpl)
  | dropped => exact .inl hpl

/-- Two events of the thread 3, which the threads 1 and 2 take out of the queue. -/
def overtakingActs : List Act :=
  [.setWinEventHook 1 0 10 0 0 0, .notify 3 5 7 0 0 100, .enqueue 3, .notify 3 6 7 0 0 101,
    .enqueue 3, .enter 1, .enter 2, .pop 1, .pop 2, .fire 2, .fire 1]

/-- **A later event overtakes.**  The second thread calls the procedure first. -/
theorem overtaken : ∃ s, (lts 1).run init overtakingActs = some s ∧
    s.delivered = [⟨1, 1⟩, ⟨0, 1⟩] ∧ (s.event 0).tid = (s.event 1).tid ∧ ¬ Sound 1 s := by
  refine ⟨_, rfl, rfl, rfl, fun h => ?_⟩
  have horder := List.pairwise_cons.1 h.order
  exact absurd (horder.1 ⟨0, 1⟩ (List.mem_singleton_self _) rfl rfl) (by decide)

end WinEvent

end Swinx
