import Swinx.Watch.Notify

/-!
# Watched directories: the two maps

What the functions that add and remove watches do to the maps and to the watches of the kernel, told
by the descriptor of each path.

* `addWatches_spec`, `removeWatches_spec` — what the two recursive functions do.
-/

namespace Swinx

namespace Watch

/-! ### The maps -/

/-- The maps are inverse, and hold descriptors that were used. -/
structure Maps (s : State) : Prop where
  inverse : ∀ w p, s.mapWdPath w = some p ↔ s.pathWd p = some w
  bound : ∀ p w, s.pathWd p = some w → w < s.marks.fresh

theorem pathWd_append {s s' : State} {p : Path} {w : ℕ} (h : s.pathWd p = none)
    (hs : s'.mapPathWd = s.mapPathWd ++ [(p, w)]) (q : Path) :
    s'.pathWd q = if q = p then some w else s.pathWd q := by
  rw [State.pathWd, hs, List.find?_append]
  rw [State.pathWd, Option.map_eq_none_iff] at h
  split_ifs with hq
  · subst hq
    rw [h]
    simp
  · rw [List.find?_cons_of_neg (by simpa using Ne.symm hq), List.find?_nil, Option.or_none]
    rfl

theorem pathWd_filter {s s' : State} {p : Path}
    (hs : s'.mapPathWd = s.mapPathWd.filter fun x => x.1 ≠ p) (q : Path) :
    s'.pathWd q = if q = p then none else s.pathWd q := by
  rw [State.pathWd, hs, List.find?_filter]
  split_ifs with hq
  · subst hq
    rw [Option.map_eq_none_iff, List.find?_eq_none]
    simp
  · congr 2
    funext x
    by_cases hx : x.1 = q
    · simp [hx, hq]
    · simp [hx]

theorem mem_toRemove {s : State} {p q : Path} :
    q ∈ s.toRemove p ↔ s.pathWd q ≠ none ∧ render p <+: render q := by
  rw [State.toRemove, List.mem_filter, decide_eq_true_eq]
  refine and_congr_left fun _ => ?_
  rw [State.pathWd, ne_eq, Option.map_eq_none_iff, List.find?_eq_none, List.mem_map]
  simp

variable {W : Path}

theorem mem_under {s : State} {p q : Path} :
    q ∈ s.under W p ↔ p <+: q ∧ s.tree.inode (W ++ q) ≠ none := by
  rw [State.under, List.mem_map]
  constructor
  · rintro ⟨a, ha, rfl⟩
    obtain ⟨ha, hpre⟩ := List.mem_filter.1 ha
    rw [decide_eq_true_eq] at hpre
    obtain ⟨r, rfl⟩ := hpre
    rw [List.append_assoc, List.drop_left, ← List.append_assoc]
    exact ⟨List.prefix_append p r, (s.tree.mem_paths _).1 ha⟩
  · rintro ⟨hpre, hq⟩
    refine ⟨W ++ q, List.mem_filter.2 ⟨(s.tree.mem_paths _).2 hq, ?_⟩, List.drop_left⟩
    rw [decide_eq_true_eq]
    exact (List.prefix_append_right_inj W).2 hpre

/-! ### Adding watches -/

variable (W) in
/-- Watches were added, under paths in `A`. -/
structure Added (A : Path → Prop) (s s' : State) : Prop where
  tree : s'.tree = s.tree
  queue : s'.queue = s.queue
  fresh : s.marks.fresh ≤ s'.marks.fresh
  kept : ∀ p w, s.pathWd p = some w → s'.pathWd p = some w
  new : ∀ p w, s'.pathWd p = some w → s.pathWd p = some w ∨ A p ∧ s.pathWd p = none ∧
    s.marks.fresh ≤ w ∧ ∃ i, s.tree.inode (W ++ p) = some i ∧ s'.marks.wd i = some w
  marksKept : ∀ i w, s.marks.wd i = some w → s'.marks.wd i = some w
  marksNew : ∀ i w, s'.marks.wd i = some w → s.marks.wd i = some w ∨
    ∃ p, A p ∧ s.tree.inode (W ++ p) = some i ∧ s'.pathWd p = some w

theorem Added.refl (A : Path → Prop) (s : State) : Added W A s s :=
  ⟨rfl, rfl, le_rfl, fun _ _ => id, fun _ _ => Or.inl, fun _ _ => id, fun _ _ => Or.inl⟩

theorem Added.trans {A B : Path → Prop} {s t u : State} (h : Added W A s t) (h' : Added W B t u) :
    Added W (fun p => A p ∨ B p) s u := by
  refine ⟨h'.tree.trans h.tree, h'.queue.trans h.queue, h.fresh.trans h'.fresh,
    fun p w hp => h'.kept p w (h.kept p w hp), fun p w hp => ?_,
    fun i w hi => h'.marksKept i w (h.marksKept i w hi), fun i w hi => ?_⟩
  · rcases h'.new p w hp with hp | ⟨hB, hnone, hw, i, hi, hmark⟩
    · rcases h.new p w hp with hp | ⟨hA, hnone, hw, i, hi, hmark⟩
      · exact Or.inl hp
      · exact Or.inr ⟨Or.inl hA, hnone, hw, i, hi, h'.marksKept i w hmark⟩
    · refine Or.inr ⟨Or.inr hB, ?_, h.fresh.trans hw, i, h.tree ▸ hi, hmark⟩
      by_contra hne
      obtain ⟨w', hw'⟩ := Option.ne_none_iff_exists'.1 hne
      simp [h.kept p w' hw'] at hnone
  · rcases h'.marksNew i w hi with hi | ⟨p, hB, hi, hp⟩
    · rcases h.marksNew i w hi with hi | ⟨p, hA, hi, hp⟩
      · exact Or.inl hi
      · exact Or.inr ⟨p, Or.inl hA, hi, h'.kept p w hp⟩
    · exact Or.inr ⟨p, Or.inr hB, h.tree ▸ hi, hp⟩

/-- No directory at `p` is watched under another path. -/
def Clear (W : Path) (s : State) (p : Path) : Prop :=
  s.pathWd p = none → ∀ i, s.tree.inode (W ++ p) = some i → s.marks.wd i = none

theorem addWatch_spec {s : State} (hM : Maps s) {p : Path} (hclear : Clear W s p) :
    Added W (· = p) s (addWatch W s p) ∧ Maps (addWatch W s p) ∧
      (s.tree.inode (W ++ p) ≠ none → (addWatch W s p).pathWd p ≠ none) := by
  unfold addWatch
  split_ifs with hp
  · exact ⟨Added.refl _ s, hM, fun _ => hp⟩
  · rw [not_not] at hp
    split
    · next hi => exact ⟨Added.refl _ s, hM, fun h => absurd hi h⟩
    · next i hi =>
      have hwd := hclear hp i hi
      split
      · next wd hwd' => simp [hwd] at hwd'
      · generalize hs' : ({ s with
          marks := s.marks.add i hwd
          mapWdPath := Function.update s.mapWdPath s.marks.fresh (some p)
          mapPathWd := s.mapPathWd ++ [(p, s.marks.fresh)] } : State) = s'
        have hpath : ∀ q, s'.pathWd q = if q = p then some s.marks.fresh else s.pathWd q :=
          pathWd_append hp (by rw [← hs'])
        have hmark : s'.marks.wd = Function.update s.marks.wd i (some s.marks.fresh) := by
          rw [← hs']; rfl
        have hfresh : s'.marks.fresh = s.marks.fresh + 1 := by rw [← hs']; rfl
        have hmap : s'.mapWdPath = Function.update s.mapWdPath s.marks.fresh (some p) := by
          rw [← hs']
        have hnew : ∀ q, s.pathWd q ≠ some s.marks.fresh := fun q hq =>
          lt_irrefl _ (hM.bound q _ hq)
        refine ⟨⟨by rw [← hs'], by rw [← hs'], by omega, fun q w hq => ?_, fun q w hq => ?_,
          fun j w hj => ?_, fun j w hj => ?_⟩, ⟨fun w q => ?_, fun q w hq => ?_⟩,
          fun _ => by simp [hpath]⟩
        · rw [hpath, if_neg (by rintro rfl; simp [hp] at hq), hq]
        · rw [hpath] at hq
          split_ifs at hq with hqp
          · obtain rfl := Option.some.inj hq
            subst hqp
            exact Or.inr ⟨rfl, hp, le_rfl, i, hi, by simp [hmark]⟩
          · exact Or.inl hq
        · have hji : j ≠ i := by rintro rfl; simp [hwd] at hj
          simpa [hmark, hji] using hj
        · by_cases hji : j = i
          · subst hji
            simp only [hmark, Function.update_self, Option.some.injEq] at hj
            exact Or.inr ⟨p, rfl, hi, by simp [hpath, hj]⟩
          · exact Or.inl (by simpa [hmark, hji] using hj)
        · rw [hmap, hpath]
          by_cases hw : w = s.marks.fresh
          · subst hw
            by_cases hqp : q = p
            · simp [hqp]
            · simp [hqp, Ne.symm hqp, hnew q]
          · by_cases hqp : q = p
            · have : s.mapWdPath w ≠ some p := fun h => by simp [(hM.inverse w p).1 h] at hp
              simp [hqp, hw, this, Ne.symm hw]
            · simp [hqp, hw, hM.inverse]
        · rw [hpath] at hq
          split_ifs at hq with hqp
          · have := Option.some.inj hq
            omega
          · have := hM.bound q w hq
            omega

theorem addWatches_spec (ps : List Path) {s : State} (hM : Maps s)
    (hclear : ∀ p ∈ ps, Clear W s p) :
    Added W (· ∈ ps) s (ps.foldl (addWatch W) s) ∧ Maps (ps.foldl (addWatch W) s) ∧
      ∀ p ∈ ps, s.tree.inode (W ++ p) ≠ none → (ps.foldl (addWatch W) s).pathWd p ≠ none := by
  induction ps generalizing s with
  | nil => exact ⟨Added.refl _ s, hM, by simp⟩
  | cons p ps ih =>
    obtain ⟨hadd, hM', hmem⟩ := addWatch_spec hM (hclear p List.mem_cons_self)
    have hclear' : ∀ q ∈ ps, Clear W (addWatch W s p) q := by
      intro q hq hnone i hi
      have hsnone : s.pathWd q = none := by
        by_contra hne
        obtain ⟨w, hw⟩ := Option.ne_none_iff_exists'.1 hne
        simp [hadd.kept q w hw] at hnone
      rw [hadd.tree] at hi
      have hfree := hclear q (List.mem_cons_of_mem p hq) hsnone i hi
      by_contra hne
      obtain ⟨w, hw⟩ := Option.ne_none_iff_exists'.1 hne
      rcases hadd.marksNew i w hw with h | ⟨p', rfl, hi', hp'⟩
      · simp [hfree] at h
      · have := List.append_cancel_left (s.tree.inj _ _ i hi hi')
        simp [this, hp'] at hnone
    obtain ⟨hadd', hM'', hmem'⟩ := ih hM' hclear'
    have htrans := hadd.trans hadd'
    have hall : Added W (· ∈ p :: ps) s ((p :: ps).foldl (addWatch W) s) := by
      simpa [List.mem_cons] using htrans
    refine ⟨hall, hM'', fun q hq hex => ?_⟩
    rcases List.mem_cons.1 hq with rfl | hq
    · obtain ⟨w, hw⟩ := Option.ne_none_iff_exists'.1 (hmem hex)
      rw [List.foldl_cons, hadd'.kept q w hw]
      simp
    · exact hmem' q hq (by rw [hadd.tree]; exact hex)

/-! ### Removing watches -/

/-- The paths of a list were removed. -/
structure Removed (A : List Path) (s s' : State) : Prop where
  tree : s'.tree = s.tree
  fresh : s'.marks.fresh = s.marks.fresh
  queue : ∃ es, s'.queue = s.queue ++ es ∧ ∀ e ∈ es, e.name = none ∧ e.wd < s.marks.fresh
  pathWd : ∀ p, s'.pathWd p = if p ∈ A then none else s.pathWd p
  marks : ∀ i w p, s.marks.wd i = some w → s'.pathWd p = some w → s'.marks.wd i = some w

theorem Removed.refl (s : State) : Removed [] s s :=
  ⟨rfl, rfl, ⟨[], (List.append_nil _).symm, by simp⟩, by simp, fun _ _ _ h _ => h⟩

theorem Removed.trans {A B : List Path} {s t u : State} (h : Removed A s t) (h' : Removed B t u) :
    Removed (A ++ B) s u := by
  obtain ⟨es, hes, hnone⟩ := h.queue
  obtain ⟨es', hes', hnone'⟩ := h'.queue
  refine ⟨h'.tree.trans h.tree, h'.fresh.trans h.fresh, ⟨es ++ es', ?_, ?_⟩, fun p => ?_,
    fun i w p hi hp => ?_⟩
  · rw [hes', hes, List.append_assoc]
  · intro e he
    rcases List.mem_append.1 he with he | he
    · exact hnone e he
    · rw [← h.fresh]
      exact hnone' e he
  · rw [h'.pathWd, h.pathWd]
    by_cases hB : p ∈ B <;> by_cases hA : p ∈ A <;> simp [hA, hB]
  · have hp' : t.pathWd p = some w := by
      have := hp
      rw [h'.pathWd] at this
      split_ifs at this
      exact this
    exact h'.marks i w p (h.marks i w p hi hp') hp

theorem removeWatchByPath_spec {s : State} (hM : Maps s) (p : Path) :
    Removed [p] s (removeWatchByPath s p) ∧ Maps (removeWatchByPath s p) := by
  unfold removeWatchByPath
  split
  · next hp =>
    refine ⟨⟨rfl, rfl, ⟨[], (List.append_nil _).symm, by simp⟩, fun q => ?_, fun _ _ _ h _ => h⟩,
      hM⟩
    by_cases hq : q = p
    · simp [hq, hp]
    · simp [hq]
  · next wd hp =>
    generalize ht : ({ s with
      mapPathWd := s.mapPathWd.filter fun x => x.1 ≠ p
      mapWdPath := Function.update s.mapWdPath wd none } : State) = t
    have hpath : ∀ q, t.pathWd q = if q = p then none else s.pathWd q :=
      pathWd_filter (by rw [← ht])
    have hmap : t.mapWdPath = Function.update s.mapWdPath wd none := by rw [← ht]
    have hmarks : t.marks = s.marks := by rw [← ht]
    have hqueue : t.queue = s.queue := by rw [← ht]
    have hother : ∀ q w, t.pathWd q = some w → w ≠ wd := by
      rintro q w hq rfl
      rw [hpath] at hq
      split_ifs at hq with hqp
      rw [← hM.inverse, (hM.inverse w p).2 hp, Option.some.injEq] at hq
      exact hqp hq.symm
    have hR : ∀ u : State, u.tree = s.tree → u.mapPathWd = t.mapPathWd →
        u.mapWdPath = t.mapWdPath → u.marks.fresh = s.marks.fresh →
        (∃ es, u.queue = s.queue ++ es ∧ ∀ e ∈ es, e.name = none ∧ e.wd < s.marks.fresh) →
        (∀ i w, s.marks.wd i = some w → w ≠ wd → u.marks.wd i = some w) →
        Removed [p] s u ∧ Maps u := by
      intro u htree hpw hwp hfresh hq hwd
      have hu : ∀ q, u.pathWd q = t.pathWd q := fun q => by rw [State.pathWd, hpw]; rfl
      refine ⟨⟨htree, hfresh, hq, fun q => ?_, fun i w q hi hw => ?_⟩, ⟨fun w q => ?_, ?_⟩⟩
      · simp [hu, hpath]
      · exact hwd i w hi (hother q w (hu q ▸ hw))
      · rw [hwp, hmap, hu, hpath]
        by_cases hw : w = wd
        · subst hw
          have : s.pathWd q = some w → q = p := fun h => by
            rw [← hM.inverse, (hM.inverse w p).2 hp, Option.some.injEq] at h
            exact h.symm
          by_cases hqp : q = p
          · simp [hqp]
          · simpa [hqp] using fun h => hqp (this h)
        · by_cases hqp : q = p
          · subst hqp
            have : s.mapWdPath w ≠ some q := fun h => by
              rw [hM.inverse, hp, Option.some.injEq] at h
              exact hw h.symm
            simpa [hw] using this
          · simp [hw, hqp, hM.inverse]
      · intro q w h
        rw [hu, hpath] at h
        split_ifs at h
        rw [hfresh]
        exact hM.bound q w h
    unfold rmWatch
    rw [hmarks]
    split
    · refine hR t (by rw [← ht]) rfl rfl (by rw [hmarks]) ⟨[], by rw [hqueue]; simp, by simp⟩ ?_
      intro i w hi _
      rwa [hmarks]
    · next i hi =>
      refine hR _ (by rw [← ht]) rfl rfl rfl ⟨_, by rw [hqueue], ?_⟩ fun j w hj hw => ?_
      · intro e he
        obtain rfl := List.mem_singleton.1 he
        exact ⟨rfl, hM.bound p wd hp⟩
      · have hji : j ≠ i := by
          rintro rfl
          rw [← s.marks.inverse] at hi
          exact hw (Option.some.inj (hj.symm.trans hi))
        simpa [Marks.remove, hji] using hj

theorem removeWatches_spec (ps : List Path) {s : State} (hM : Maps s) :
    Removed ps s (ps.foldl removeWatchByPath s) ∧ Maps (ps.foldl removeWatchByPath s) := by
  induction ps generalizing s with
  | nil => exact ⟨Removed.refl s, hM⟩
  | cons p ps ih =>
    obtain ⟨h, hM'⟩ := removeWatchByPath_spec hM p
    obtain ⟨h', hM''⟩ := ih hM'
    exact ⟨h.trans h', hM''⟩

end Watch

end Swinx
