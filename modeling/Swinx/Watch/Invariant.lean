import Swinx.Watch.Maps

/-!
# Watched directories: runs

A directory is *settled* when no event is queued for it or for a directory that it is in.  In an
orderly run the settled directories are watched under their paths, and the events that are queued
for a name in a settled directory tell in turn that it comes and that it goes; the last of them
tells what is there.

* `Changed.inv`, `Inv.process` — the two kinds of steps keep the invariant.
* `sound_of_noneReplaced` — a run of orderly steps is sound in all its states.
-/

namespace Swinx

namespace Watch

variable {W : Path}

/-! ### The events for a name -/

/-- The queued events of the watch `w` that have the name `n`. -/
def State.pend (s : State) (w : ℕ) (n : Name) : List Event :=
  s.queue.filter fun e => e.wd = w ∧ e.name = some n

/-- No event is queued for the directory or for one that it is in. -/
def Settled (s : State) (p : Path) : Prop :=
  ∀ q n w, q ++ [n] <+: p → s.pathWd q = some w → s.pend w n = []

theorem Settled.above {s : State} {p q : Path} (h : Settled s q) (hp : p <+: q) : Settled s p :=
  fun a n w ha hw => h a n w (ha.trans hp) hw

theorem settled_nil (s : State) : Settled s [] := fun q n w h _ => by simp at h

/-- A name is settled if its directory is and it has no events. -/
theorem Settled.snoc {s : State} {p : Path} {n : Name} (h : Settled s p)
    (hn : ∀ w, s.pathWd p = some w → s.pend w n = []) : Settled s (p ++ [n]) := by
  intro q m w hpre hw
  rcases List.prefix_concat_iff.1 hpre with heq | hpre
  · obtain ⟨rfl, rfl⟩ := snoc_inj.1 heq
    exact hn w hw
  · exact h q m w hpre hw

/-- **The events `E` for a name**: `d` is what has the name, `m` the descriptor that is kept. -/
structure Ok (E : List Event) (d m : Option ℕ) : Prop where
  /-- The directory comes and goes in turn. -/
  turns : E.IsChain fun e f => e.kind.adds ≠ f.kind.adds
  /-- The last event tells what is there. -/
  last : ∀ e ∈ E.getLast?, if e.kind.adds then d = some e.dir else d = none
  /-- What comes next is not kept yet. -/
  head : ∀ e ∈ E.head?, e.kind.adds = true → m = none
  nil : E = [] → d = none → m = none

/-- What the new events `es` for a name tell of the change from `d` to `d'`. -/
def Tells (es : List Event) (d d' : Option ℕ) : Prop :=
  es = [] ∧ d' = d ∨
    ∃ e, es = [e] ∧ if e.kind.adds then d = none ∧ d' = some e.dir else d ≠ none ∧ d' = none

namespace Ok

variable {E es : List Event} {e : Event} {d d' m : Option ℕ}

theorem snoc (h : Ok E d m)
    (he : if e.kind.adds then d = none ∧ d' = some e.dir else d ≠ none ∧ d' = none) :
    Ok (E ++ [e]) d' m := by
  refine ⟨List.isChain_append.2 ⟨h.turns, List.isChain_singleton _, ?_⟩, ?_, ?_, by simp⟩
  · intro f hf g hg
    obtain rfl : e = g := by simpa using hg
    have hlast := h.last f hf
    intro heq
    rw [← heq] at he
    split_ifs at hlast he with hadds
    · rw [he.1] at hlast
      cases hlast
    · exact he.1 hlast
  · intro f hf
    obtain rfl : e = f := by simpa using hf
    split_ifs at he ⊢ with hadds
    · exact he.2
    · exact he.2
  · intro f hf hadds
    cases E with
    | nil =>
      obtain rfl : e = f := by simpa using hf
      rw [if_pos hadds] at he
      exact h.nil rfl he.1
    | cons g E => exact h.head f hf hadds

theorem append (h : Ok E d m) (he : Tells es d d') : Ok (E ++ es) d' m := by
  rcases he with ⟨rfl, rfl⟩ | ⟨e, rfl, he⟩
  · rwa [List.append_nil]
  · exact h.snoc he

theorem tail_add (h : Ok (e :: E) d m) (he : e.kind.adds = true) (m' : Option ℕ) : Ok E d m' := by
  refine ⟨h.turns.tail, fun f hf => ?_, fun f hf hadds => ?_, fun hE hd => ?_⟩
  · cases E with
    | nil => cases hf
    | cons g E => exact h.last f (by rwa [List.getLast?_cons_cons])
  · cases E with
    | nil => cases hf
    | cons g E =>
      obtain rfl := Option.some.inj hf
      have := (List.isChain_cons_cons.1 h.turns).1
      rw [he, hadds] at this
      exact absurd rfl this
  · subst hE
    have := h.last e rfl
    rw [if_pos he, hd] at this
    cases this

theorem tail_remove (h : Ok (e :: E) d m) : Ok E d none := by
  refine ⟨h.turns.tail, fun f hf => ?_, fun _ _ _ => rfl, fun _ _ => rfl⟩
  cases E with
  | nil => cases hf
  | cons g E => exact h.last f (by rwa [List.getLast?_cons_cons])

end Ok

/-! ### What is known -/

variable (W) in
/-- **The invariant of orderly runs.** -/
structure Inv (s : State) : Prop where
  root : s.tree.inode W ≠ none
  maps : Maps s
  closed : ∀ p n, s.pathWd (p ++ [n]) ≠ none → s.pathWd p ≠ none
  queued : ∀ e ∈ s.queue, e.wd < s.marks.fresh ∧ (e.kind = .ignored → e.name = none)
  /-- What is settled and exists is watched. -/
  live : ∀ p i, Settled s p → s.tree.inode (W ++ p) = some i →
    ∃ w, s.pathWd p = some w ∧ s.marks.wd i = some w
  ok : ∀ p w n, Settled s p → s.pathWd p = some w →
    Ok (s.pend w n) (s.tree.inode (W ++ (p ++ [n]))) (s.pathWd (p ++ [n]))

namespace Inv

variable {s s' : State}

theorem exists_of_settled (hI : Inv W s) {p : Path} (hset : Settled s p)
    (hp : s.pathWd p ≠ none) : s.tree.inode (W ++ p) ≠ none := by
  induction p using List.reverseRecOn with
  | nil =>
    rw [List.append_nil]
    exact hI.root
  | append_singleton p n ih =>
    obtain ⟨w, hw⟩ := Option.ne_none_iff_exists'.1 (hI.closed p n hp)
    have hok := hI.ok p w n (hset.above (List.prefix_append p [n])) hw
    have hpend := hset p n w (List.prefix_refl _) hw
    exact fun hnone => hp (hok.nil hpend hnone)

theorem closed_above (hI : Inv W s) {p q : Path} (h : p <+: q) (hq : s.pathWd q ≠ none) :
    s.pathWd p ≠ none := by
  obtain ⟨r, rfl⟩ := h
  induction r using List.reverseRecOn with
  | nil => rwa [List.append_nil] at hq
  | append_singleton r n ih =>
    rw [← List.append_assoc] at hq
    exact ih (hI.closed _ n hq)

theorem removal_of_not_settled (hI : Inv W s) {p : Path} (hp : s.pathWd p ≠ none)
    (hset : ¬ Settled s p) : ∃ e ∈ s.queue, e.kind.adds = false ∧ ∃ q n, e.name = some n ∧
      s.mapWdPath e.wd = some q ∧ q ++ [n] <+: p := by
  induction p using List.reverseRecOn with
  | nil => exact absurd (settled_nil s) hset
  | append_singleton p n ih =>
    by_cases hsetp : Settled s p
    · obtain ⟨w, hw⟩ := Option.ne_none_iff_exists'.1 (hI.closed p n hp)
      have hok := hI.ok p w n hsetp hw
      have hpend : s.pend w n ≠ [] := fun h => hset <| hsetp.snoc fun w' hw' => by
        rw [hw, Option.some.injEq] at hw'
        rwa [← hw']
      obtain ⟨e, E, hE⟩ := List.exists_cons_of_ne_nil hpend
      have he : e ∈ s.pend w n := by simp [hE]
      obtain ⟨hmem, htest⟩ := List.mem_filter.1 he
      obtain ⟨rfl, hname⟩ := of_decide_eq_true htest
      refine ⟨e, hmem, ?_, p, n, hname, (hI.maps.inverse _ _).2 hw, List.prefix_refl _⟩
      by_contra hadds
      rw [Bool.not_eq_false] at hadds
      exact hp (hok.head e (by simp [hE]) hadds)
    · obtain ⟨e, he, hadds, q, m, hname, hwd, hpre⟩ := ih (hI.closed p n hp) hsetp
      exact ⟨e, he, hadds, q, m, hname, hwd, hpre.trans (List.prefix_append p [n])⟩

/-- A directory is settled when its creation and its moves, and those of the directories that it is
in, are processed. -/
theorem settled_of_processed (hI : Inv W s) {p : Path} (hex : s.tree.inode (W ++ p) ≠ none)
    (hdone : ∀ q j, q <+: p → s.tree.inode (W ++ q) = some j → ¬ s.Pending j) : Settled s p := by
  induction p using List.reverseRecOn with
  | nil => exact settled_nil s
  | append_singleton p n ih =>
    have hexp : s.tree.inode (W ++ p) ≠ none :=
      s.tree.closed _ _ ((List.prefix_append_right_inj W).2 (List.prefix_append p [n])) hex
    have hset := ih hexp fun q j hq => hdone q j (hq.trans (List.prefix_append p [n]))
    refine hset.snoc fun w hw => ?_
    have hok := hI.ok p w n hset hw
    by_contra hpend
    obtain ⟨e, he⟩ := Option.ne_none_iff_exists'.1 (mt List.getLast?_eq_none_iff.1 hpend)
    have hlast := hok.last e he
    split_ifs at hlast with hadds
    · exact hdone _ _ (List.prefix_refl _) hlast
        ⟨e, (List.mem_filter.1 (List.mem_of_getLast? he)).1, hadds, rfl⟩
    · exact hex hlast

/-- **The invariant gives the property.** -/
theorem sound (hI : Inv W s) : Sound W s := by
  refine ⟨hI.maps.inverse, fun p i hp hdone => ?_, fun p w hp => ?_⟩
  · exact hI.live p i (hI.settled_of_processed (by rw [hp]; simp) hdone) hp
  · have hne : s.pathWd p ≠ none := by rw [hp]; simp
    by_cases hset : Settled s p
    · obtain ⟨i, hi⟩ := Option.ne_none_iff_exists'.1 (hI.exists_of_settled hset hne)
      obtain ⟨w', hw', hmark⟩ := hI.live p i hset hi
      rw [hp, Option.some.injEq] at hw'
      exact Or.inl ⟨i, hi, hw' ▸ hmark⟩
    · exact Or.inr (hI.removal_of_not_settled hne hset)

/-! ### Operations of the file system -/

end Inv

variable (W) in
/-- The file system was changed, and the events `es` were queued. -/
structure Changed (es : List Event) (s s' : State) : Prop where
  mapWdPath : s'.mapWdPath = s.mapWdPath
  mapPathWd : s'.mapPathWd = s.mapPathWd
  queue : s'.queue = s.queue ++ es
  queued : ∀ e ∈ es, e.wd < s.marks.fresh ∧ (e.kind = .ignored → e.name = none)
  fresh : s'.marks.fresh = s.marks.fresh
  root : s'.tree.inode W = s.tree.inode W
  marks : ∀ p i, s'.tree.inode p = some i → s'.marks.wd i = s.marks.wd i
  tells : ∀ p n i w, s.tree.inode p = some i → s'.tree.inode p = some i → s.marks.wd i = some w →
    Tells (es.filter fun e => e.wd = w ∧ e.name = some n) (s.tree.inode (p ++ [n]))
      (s'.tree.inode (p ++ [n]))

namespace Changed

variable {s s' : State} {es : List Event}

theorem pathWd (h : Changed W es s s') (p : Path) : s'.pathWd p = s.pathWd p := by
  rw [State.pathWd, h.mapPathWd]
  rfl

theorem pend (h : Changed W es s s') (w : ℕ) (n : Name) :
    s'.pend w n = s.pend w n ++ es.filter fun e => e.wd = w ∧ e.name = some n := by
  rw [State.pend, h.queue, List.filter_append]
  rfl

theorem settled (h : Changed W es s s') {p : Path} (hp : Settled s' p) : Settled s p := by
  intro q n w hpre hw
  have := hp q n w hpre (by rwa [h.pathWd])
  rw [h.pend] at this
  exact (List.append_eq_nil_iff.1 this).1

theorem inode_of_settled (h : Changed W es s s') (hI : Inv W s) {p : Path} (hp : Settled s' p) :
    s'.tree.inode (W ++ p) = s.tree.inode (W ++ p) := by
  induction p using List.reverseRecOn with
  | nil =>
    rw [List.append_nil]
    exact h.root
  | append_singleton p n ih =>
    have hsetp := hp.above (List.prefix_append p [n])
    have hsame := ih hsetp
    rw [← List.append_assoc]
    cases hi : s.tree.inode (W ++ p) with
    | none =>
      rw [hi] at hsame
      have hgone : ∀ t : DirTree Name, t.inode (W ++ p) = none →
          t.inode (W ++ p ++ [n]) = none := fun t ht => by
        by_contra hne
        exact t.closed _ _ (List.prefix_append _ [n]) hne ht
      rw [hgone _ hi, hgone _ hsame]
    | some i =>
      rw [hi] at hsame
      obtain ⟨w, hw, hmark⟩ := hI.live p i (h.settled hsetp) hi
      rcases h.tells (W ++ p) n i w hi hsame hmark with ⟨-, heq⟩ | ⟨e, he, -⟩
      · exact heq
      · have := hp p n w (List.prefix_refl _) (by rwa [h.pathWd])
        rw [h.pend, he] at this
        simp at this

theorem inv (h : Changed W es s s') (hI : Inv W s) : Inv W s' := by
  refine ⟨by rw [h.root]; exact hI.root, ⟨fun w p => ?_, fun p w hp => ?_⟩, fun p n => ?_,
    fun e he => ?_, fun p i hset hi => ?_, fun p w n hset hw => ?_⟩
  · rw [h.mapWdPath, h.pathWd]
    exact hI.maps.inverse w p
  · rw [h.pathWd] at hp
    rw [h.fresh]
    exact hI.maps.bound p w hp
  · rw [h.pathWd, h.pathWd]
    exact hI.closed p n
  · rw [h.fresh]
    rw [h.queue] at he
    rcases List.mem_append.1 he with he | he
    · exact hI.queued e he
    · exact h.queued e he
  · rw [h.pathWd, h.marks _ i hi]
    rw [h.inode_of_settled hI hset] at hi
    exact hI.live p i (h.settled hset) hi
  · rw [h.pathWd] at hw
    have hset' := h.settled hset
    obtain ⟨i, hi⟩ := Option.ne_none_iff_exists'.1 (hI.exists_of_settled hset' (by rw [hw]; simp))
    obtain ⟨w', hw', hmark⟩ := hI.live p i hset' hi
    rw [hw, Option.some.injEq] at hw'
    subst hw'
    have htells := h.tells (W ++ p) n i w hi (by rw [h.inode_of_settled hI hset, hi]) hmark
    rw [List.append_assoc] at htells
    rw [h.pend, h.pathWd]
    exact (hI.ok p w n hset' hw).append htells

end Changed

variable {s s' : State}

/-- The event tells the watch of the directory, and only that. -/
theorem filter_notify {a : Path} {i w : ℕ} (ha : s.tree.inode a = some i)
    (hw : s.marks.wd i = some w) (p : Path) (n n' : Name) (k : Kind) (j : ℕ) :
    (s.notify p n k j).filter (fun e => e.wd = w ∧ e.name = some n') =
      if p = a ∧ n = n' then [⟨w, some n, k, j⟩] else [] := by
  unfold State.notify
  cases hp : (s.tree.inode p).bind s.marks.wd with
  | none =>
    have hpa : p ≠ a := by
      rintro rfl
      simp [ha, hw] at hp
    simp [hpa]
  | some w' =>
    obtain ⟨i', hi', hw'⟩ := Option.bind_eq_some_iff.1 hp
    have heq : w' = w ↔ p = a := by
      constructor
      · rintro rfl
        have hii : i' = i := Option.some.inj <|
          ((s.marks.inverse i' w').1 hw').symm.trans ((s.marks.inverse i w').1 hw)
        exact s.tree.inj _ _ i (hii ▸ hi') ha
      · rintro rfl
        rw [ha, Option.some.injEq] at hi'
        rw [← hi', hw, Option.some.injEq] at hw'
        exact hw'.symm
    by_cases hpa : p = a ∧ n = n'
    · obtain ⟨hpa', rfl⟩ := hpa
      simp [heq.2 hpa', hpa']
    · rw [if_neg hpa, List.filter_eq_nil_iff]
      intro e he
      obtain rfl := List.mem_singleton.1 he
      simpa [heq] using hpa

@[simp] theorem filter_ignored (i w : ℕ) (n : Name) :
    (s.ignored i).filter (fun e => e.wd = w ∧ e.name = some n) = [] := by
  unfold State.ignored
  cases s.marks.wd i <;> simp

theorem mem_notify {p : Path} {n : Name} {k : Kind} {i : ℕ} {e : Event}
    (he : e ∈ s.notify p n k i) : e.wd < s.marks.fresh ∧ e.kind = k := by
  unfold State.notify at he
  cases hp : (s.tree.inode p).bind s.marks.wd with
  | none => simp [hp] at he
  | some w =>
    obtain ⟨i', -, hw⟩ := Option.bind_eq_some_iff.1 hp
    simp only [hp, List.mem_singleton] at he
    subst he
    exact ⟨s.marks.lt_fresh i' w hw, rfl⟩

theorem mem_ignored {i : ℕ} {e : Event} (he : e ∈ s.ignored i) :
    e.wd < s.marks.fresh ∧ e.name = none := by
  unfold State.ignored at he
  cases hw : s.marks.wd i with
  | none => simp [hw] at he
  | some w =>
    simp only [hw, List.mem_singleton] at he
    subst he
    exact ⟨s.marks.lt_fresh i w hw, rfl⟩

theorem changed_mkdir {p : Path} {n : Name} (hp : s.tree.inode p ≠ none)
    (hn : s.tree.inode (p ++ [n]) = none) (hroot : s.tree.inode W ≠ none) :
    Changed W (s.notify p n .create s.tree.fresh) s
      { s with
        tree := s.tree.mkdir p n hp
        queue := s.queue ++ s.notify p n .create s.tree.fresh } := by
  refine ⟨rfl, rfl, rfl, fun e he => ?_, rfl, ?_, fun _ _ _ => rfl, fun a m i w ha _ hw => ?_⟩
  · obtain ⟨hwd, hkind⟩ := mem_notify he
    exact ⟨hwd, fun h => by rw [hkind] at h; cases h⟩
  · have : W ≠ p ++ [n] := by
      rintro rfl
      exact hroot hn
    exact Function.update_of_ne this _ _
  · rw [filter_notify ha hw]
    by_cases h : p = a ∧ n = m
    · obtain ⟨rfl, rfl⟩ := h
      refine Or.inr ⟨_, if_pos ⟨rfl, rfl⟩, ?_⟩
      rw [if_pos (by simp [Kind.adds])]
      exact ⟨hn, Function.update_self _ _ _⟩
    · refine Or.inl ⟨if_neg h, Function.update_of_ne ?_ _ _⟩
      rw [ne_eq, snoc_inj]
      exact fun h' => h ⟨h'.1.symm, h'.2.symm⟩

theorem changed_rmdir {p : Path} {n : Name} {i : ℕ} (hi : s.tree.inode (p ++ [n]) = some i)
    (hempty : s.tree.Empty (p ++ [n])) (hW : ¬ p ++ [n] <+: W) :
    Changed W (s.notify p n .delete i ++ s.ignored i) s
      { s with
        tree := s.tree.rmdir (p ++ [n]) hempty
        marks := s.marks.remove i
        queue := s.queue ++ (s.notify p n .delete i ++ s.ignored i) } := by
  refine ⟨rfl, rfl, rfl, fun e he => ?_, rfl, ?_, fun a j ha => ?_, fun a m j w ha _ hw => ?_⟩
  · rcases List.mem_append.1 he with he | he
    · obtain ⟨hwd, hkind⟩ := mem_notify he
      exact ⟨hwd, fun h => by rw [hkind] at h; cases h⟩
    · exact ⟨(mem_ignored he).1, fun _ => (mem_ignored he).2⟩
  · have : W ≠ p ++ [n] := by
      rintro rfl
      exact hW (List.prefix_refl _)
    exact Function.update_of_ne this _ _
  · have ha' : a ≠ p ++ [n] := by
      rintro rfl
      simp [DirTree.rmdir] at ha
    have hji : j ≠ i := by
      rintro rfl
      exact ha' (s.tree.inj _ _ j (by simpa [DirTree.rmdir, ha'] using ha) hi)
    exact Function.update_of_ne hji _ _
  · rw [List.filter_append, filter_ignored, List.append_nil, filter_notify ha hw]
    by_cases h : p = a ∧ n = m
    · obtain ⟨rfl, rfl⟩ := h
      refine Or.inr ⟨_, if_pos ⟨rfl, rfl⟩, ?_⟩
      rw [if_neg (by simp [Kind.adds])]
      exact ⟨by rw [hi]; simp, Function.update_self _ _ _⟩
    · refine Or.inl ⟨if_neg h, Function.update_of_ne ?_ _ _⟩
      rw [ne_eq, snoc_inj]
      exact fun h' => h ⟨h'.1.symm, h'.2.symm⟩

theorem changed_rename {p q : Path} {n m : Name} {i : ℕ} (hi : s.tree.inode (p ++ [n]) = some i)
    (hq : s.tree.inode q ≠ none) (hno : ¬ p ++ [n] <+: q ++ [m])
    (hfree : s.tree.inode (q ++ [m]) = none) (hroot : s.tree.inode W ≠ none)
    (hW : ¬ p ++ [n] <+: W) :
    Changed W (s.notify p n .movedFrom i ++ s.notify q m .movedTo i) s
      { s with
        tree := s.tree.rename (p ++ [n]) q m hq hfree hno
        queue := s.queue ++ (s.notify p n .movedFrom i ++ s.notify q m .movedTo i) } := by
  have hbelow : ∀ a, q ++ [m] <+: a → s.tree.inode a = none := fun a ha => by
    by_contra hne
    exact s.tree.closed _ _ ha hne hfree
  refine ⟨rfl, rfl, rfl, fun e he => ?_, rfl, ?_, fun _ _ _ => rfl, fun a k j w ha ha' hw => ?_⟩
  · rcases List.mem_append.1 he with he | he <;> obtain ⟨hwd, hkind⟩ := mem_notify he <;>
      exact ⟨hwd, fun h => by rw [hkind] at h; cases h⟩
  · exact DirTree.moved_of_elsewhere _ (fun h => hroot (hbelow W h)) hW
  · -- the directory `a` did not move
    have hqa : ¬ q ++ [m] <+: a := fun h => by simp [hbelow a h] at ha
    have hpa : ¬ p ++ [n] <+: a := fun h => by
      have : s.tree.moved (p ++ [n]) (q ++ [m]) a = none := by
        rw [DirTree.moved, if_neg hqa, if_pos h]
      simp [DirTree.rename, this] at ha'
    have hne : p ++ [n] ≠ q ++ [m] := fun h => hno (h ▸ List.prefix_refl _)
    have hsame : ∀ b, p ++ [n] = b ++ [k] ∨ q ++ [m] = b ++ [k] ∨
        ¬ (p = b ∧ n = k) ∧ ¬ (q = b ∧ m = k) := fun b => by
      rw [snoc_inj, snoc_inj]
      tauto
    rw [List.filter_append, filter_notify ha hw, filter_notify ha hw]
    rcases hsame a with hsrc | hdst | ⟨hsrc, hdst⟩
    · obtain ⟨rfl, rfl⟩ := snoc_inj.1 hsrc
      have hdst : ¬ (q = p ∧ m = n) := fun h => hne (snoc_inj.2 ⟨h.1.symm, h.2.symm⟩)
      refine Or.inr ⟨_, by rw [if_pos ⟨rfl, rfl⟩, if_neg hdst, List.append_nil], ?_⟩
      rw [if_neg (by simp [Kind.adds])]
      refine ⟨by rw [hi]; simp, ?_⟩
      have hnot : ¬ q ++ [m] <+: p ++ [n] := fun h => by simp [hbelow _ h] at hi
      show s.tree.moved _ _ _ = none
      rw [DirTree.moved, if_neg hnot, if_pos (List.prefix_refl _)]
    · obtain ⟨rfl, rfl⟩ := snoc_inj.1 hdst
      have hsrc : ¬ (p = q ∧ n = m) := fun h => hne (snoc_inj.2 h)
      refine Or.inr ⟨_, by rw [if_neg hsrc, if_pos ⟨rfl, rfl⟩, List.nil_append], ?_⟩
      rw [if_pos (by simp [Kind.adds])]
      refine ⟨hfree, ?_⟩
      have := DirTree.moved_append s.tree (p ++ [n]) (q ++ [m]) []
      rw [List.append_nil, List.append_nil, hi] at this
      exact this
    · refine Or.inl ⟨by rw [if_neg hsrc, if_neg hdst]; rfl, ?_⟩
      refine DirTree.moved_of_elsewhere _ (fun h => ?_) fun h => ?_
      · rcases List.prefix_concat_iff.1 h with h | h
        · exact hdst (snoc_inj.1 h)
        · exact hqa h
      · rcases List.prefix_concat_iff.1 h with h | h
        · exact hsrc (snoc_inj.1 h)
        · exact hpa h

/-- The event `e` was taken from the queue. -/
def Taken (e : Event) (s s' : State) : Prop :=
  ∀ w n, s.pend w n = if e.wd = w ∧ e.name = some n then e :: s'.pend w n else s'.pend w n

theorem taken_of_queue {e : Event} {rest es : List Event} (hq : s.queue = e :: rest)
    (hq' : s'.queue = rest ++ es) (hes : ∀ f ∈ es, f.name = none) : Taken e s s' := by
  intro w n
  have hnil : es.filter (fun e => e.wd = w ∧ e.name = some n) = [] := by
    rw [List.filter_eq_nil_iff]
    intro f hf
    simp [hes f hf]
  rw [State.pend, State.pend, hq, hq', List.filter_append, hnil, List.append_nil, List.filter_cons]
  simp only [decide_eq_true_eq]

namespace Taken

variable {e : Event} {Q : Path} {name : Name}

theorem pend_of_ne (h : Taken e s s') {w : ℕ} {n : Name} (hne : ¬ (e.wd = w ∧ e.name = some n)) :
    s.pend w n = s'.pend w n := by
  rw [h, if_neg hne]

theorem ne_of_ne (hM : Maps s) (hwd : s.mapWdPath e.wd = some Q) (hname : e.name = some name)
    {p : Path} {w : ℕ} {n : Name} (hp : s.pathWd p = some w) (hne : p ++ [n] ≠ Q ++ [name]) :
    ¬ (e.wd = w ∧ e.name = some n) := by
  rintro ⟨rfl, hn⟩
  rw [← hM.inverse, hwd, Option.some.injEq] at hp
  rw [hname, Option.some.injEq] at hn
  exact hne (by rw [hp, hn])

/-- What is not in the subtree of the event was settled before. -/
theorem settled (h : Taken e s s') (hM : Maps s) (hwd : s.mapWdPath e.wd = some Q)
    (hname : e.name = some name)
    (hkeep : ∀ q w, ¬ Q ++ [name] <+: q → s.pathWd q = some w → s'.pathWd q = some w)
    {p : Path} (hp : Settled s' p) (hout : ¬ Q ++ [name] <+: p) : Settled s p := by
  intro q n w hpre hw
  have hq : ¬ Q ++ [name] <+: q := fun h => hout (h.trans ((List.prefix_append q [n]).trans hpre))
  have hne : q ++ [n] ≠ Q ++ [name] := fun h => hout (h ▸ hpre)
  rw [h.pend_of_ne (ne_of_ne hM hwd hname hw hne)]
  exact hp q n w hpre (hkeep q w hq hw)

end Taken

namespace Inv

theorem skip (hI : Inv W s) {e : Event} {rest : List Event} (hq : s.queue = e :: rest)
    (hnone : ∀ p, s.mapWdPath e.wd = some p → e.name = none) :
    Inv W { s with queue := rest } := by
  have htaken : Taken e s { s with queue := rest } :=
    taken_of_queue hq (List.append_nil rest).symm (by simp)
  have hpend : ∀ p w n, s.pathWd p = some w →
      s.pend w n = State.pend { s with queue := rest } w n := by
    intro p w n hp
    refine htaken.pend_of_ne fun h => ?_
    have := hnone p ((hI.maps.inverse _ _).2 (h.1.symm ▸ hp))
    rw [this] at h
    cases h.2
  have hset : ∀ p, Settled { s with queue := rest } p → Settled s p := fun p h q n w hpre hw => by
    rw [hpend q w n hw]
    exact h q n w hpre hw
  refine ⟨hI.root, ⟨hI.maps.inverse, hI.maps.bound⟩, hI.closed, fun f hf => ?_,
    fun p i h hi => hI.live p i (hset p h) hi, fun p w n h hw => ?_⟩
  · exact hI.queued f (by rw [hq]; exact List.mem_cons_of_mem e hf)
  · rw [← hpend p w n hw]
    exact hI.ok p w n (hset p h) hw

variable {e : Event} {rest : List Event} {Q : Path} {name : Name}

/-- The directory of an event that adds it is not kept, and nothing below it is. -/
theorem not_kept (hI : Inv W s) (hq : s.queue = e :: rest) (hwd : s.mapWdPath e.wd = some Q)
    (hname : e.name = some name) (hadds : e.kind.adds = true) (hset : Settled s Q) {p : Path}
    (hp : Q ++ [name] <+: p) : s.pathWd p = none := by
  by_contra hne
  have hhead : (s.pend e.wd name).head? = some e := by
    rw [State.pend, hq, List.filter_cons_of_pos (by simp [hname])]
    rfl
  exact hI.closed_above hp hne <|
    (hI.ok Q e.wd name hset ((hI.maps.inverse _ _).1 hwd)).head e hhead hadds

theorem add (hI : Inv W s) (hq : s.queue = e :: rest) (hwd : s.mapWdPath e.wd = some Q)
    (hname : e.name = some name) (hadds : e.kind.adds = true)
    (hclear : ∀ p ∈ s.under W (Q ++ [name]), Clear W s p) :
    Inv W (add_path_watch_recursive W { s with queue := rest } (Q ++ [name])) := by
  have hM₀ : Maps { s with queue := rest } := ⟨hI.maps.inverse, hI.maps.bound⟩
  obtain ⟨hA, hM, hmem⟩ := addWatches_spec (s.under W (Q ++ [name])) hM₀ hclear
  change Added W _ _ (add_path_watch_recursive W { s with queue := rest } (Q ++ [name])) at hA
  change Maps (add_path_watch_recursive W { s with queue := rest } (Q ++ [name])) at hM
  change ∀ p ∈ _, _ → (add_path_watch_recursive W { s with queue := rest } (Q ++ [name])).pathWd p
    ≠ none at hmem
  generalize add_path_watch_recursive W { s with queue := rest } (Q ++ [name]) = s' at hA hM hmem ⊢
  have htaken : Taken e s s' :=
    taken_of_queue hq (hA.queue.trans (List.append_nil rest).symm) (by simp)
  have hout : ∀ p, ¬ Q ++ [name] <+: p → s'.pathWd p = s.pathWd p := by
    intro p hp
    cases hw : s'.pathWd p with
    | some w =>
      rcases hA.new p w hw with h | ⟨h, -⟩
      · exact h.symm
      · exact absurd (mem_under.1 h).1 hp
    | none =>
      by_contra hne
      obtain ⟨w, hw'⟩ := Option.ne_none_iff_exists'.1 (Ne.symm hne)
      rw [hA.kept p w hw'] at hw
      cases hw
  have hset : ∀ p, Settled s' p → ¬ Q ++ [name] <+: p → Settled s p := fun p h =>
    htaken.settled hI.maps hwd hname (fun q w hq hw => by rw [hout q hq, hw]) h
  have hQ := not_snoc_prefix Q name
  have hin : ∀ p, Settled s' p → Q ++ [name] <+: p → s.pathWd p = none := fun p h hp =>
    hI.not_kept hq hwd hname hadds
      (hset Q (h.above ((List.prefix_append Q [name]).trans hp)) hQ) hp
  refine ⟨by rw [hA.tree]; exact hI.root, hM, fun p n hne => ?_, fun f hf => ?_,
    fun p i h hi => ?_, fun p w n h hw => ?_⟩
  · obtain ⟨w, hw⟩ := Option.ne_none_iff_exists'.1 hne
    rcases hA.new _ w hw with h | ⟨h, -⟩
    · have hold : s.pathWd (p ++ [n]) ≠ none := by
        rw [show s.pathWd (p ++ [n]) = some w from h]
        simp
      obtain ⟨w', hw'⟩ := Option.ne_none_iff_exists'.1 (hI.closed p n hold)
      simp [hA.kept p w' hw']
    · obtain ⟨hpre, hex⟩ := mem_under.1 h
      rcases List.prefix_concat_iff.1 hpre with heq | hpre
      · obtain ⟨rfl, rfl⟩ := snoc_inj.1 heq
        simp [hA.kept Q e.wd ((hI.maps.inverse _ _).1 hwd)]
      · have hexp : s.tree.inode (W ++ p) ≠ none :=
          s.tree.closed _ _ ((List.prefix_append_right_inj W).2 (List.prefix_append p [n])) hex
        exact hmem p (mem_under.2 ⟨hpre, hexp⟩) hexp
  · rw [hA.queue] at hf
    obtain ⟨hwd', hkind⟩ := hI.queued f (by rw [hq]; exact List.mem_cons_of_mem e hf)
    exact ⟨hwd'.trans_le hA.fresh, hkind⟩
  · rw [hA.tree] at hi
    by_cases hp : Q ++ [name] <+: p
    · have hex : s.tree.inode (W ++ p) ≠ none := by
        show ({ s with queue := rest } : State).tree.inode (W ++ p) ≠ none
        rw [hi]
        simp
      obtain ⟨w, hw⟩ := Option.ne_none_iff_exists'.1 (hmem p (mem_under.2 ⟨hp, hex⟩) hex)
      rcases hA.new p w hw with h' | ⟨-, -, -, j, hj, hmark⟩
      · exact absurd ((hin p h hp).symm.trans h') (by simp)
      · rw [hi, Option.some.injEq] at hj
        exact ⟨w, hw, hj ▸ hmark⟩
    · obtain ⟨w, hw, hmark⟩ := hI.live p i (hset p h hp) hi
      exact ⟨w, hA.kept p w hw, hA.marksKept i w hmark⟩
  · rw [hA.tree]
    by_cases hp : Q ++ [name] <+: p
    · -- the watch is new, so nothing is queued for it
      have hp' : Q ++ [name] <+: p ++ [n] := hp.trans (List.prefix_append p [n])
      rcases hA.new p w hw with h' | ⟨-, -, hfresh, -⟩
      · exact absurd ((hin p h hp).symm.trans h') (by simp)
      · have hpend : s'.pend w n = [] := by
          rw [State.pend, List.filter_eq_nil_iff, hA.queue]
          intro f hf htest
          obtain ⟨rfl, -⟩ := of_decide_eq_true htest
          have := (hI.queued f (by rw [hq]; exact List.mem_cons_of_mem e hf)).1
          change s.marks.fresh ≤ f.wd at hfresh
          omega
        rw [hpend]
        refine ⟨List.isChain_nil, by simp, by simp, fun _ hnone => ?_⟩
        by_contra hne
        obtain ⟨w', hw'⟩ := Option.ne_none_iff_exists'.1 hne
        rcases hA.new _ w' hw' with h' | ⟨-, -, -, j, hj, -⟩
        · exact absurd h' (by
            have hset' := hset Q (h.above ((List.prefix_append Q [name]).trans hp)) hQ
            have := hI.not_kept hq hwd hname hadds hset' hp'
            change s.pathWd (p ++ [n]) ≠ some w'
            rw [this]
            simp)
        · rw [hnone] at hj
          cases hj
    · rw [hout p hp] at hw
      have hok := hI.ok p w n (hset p h hp) hw
      by_cases heq : p ++ [n] = Q ++ [name]
      · obtain ⟨rfl, rfl⟩ := snoc_inj.1 heq
        obtain rfl : e.wd = w := Option.some.inj (((hI.maps.inverse _ _).1 hwd).symm.trans hw)
        rw [htaken, if_pos ⟨rfl, hname⟩] at hok
        exact hok.tail_add hadds _
      · rw [htaken.pend_of_ne (Taken.ne_of_ne hI.maps hwd hname hw heq)] at hok
        have hp' : ¬ Q ++ [name] <+: p ++ [n] := fun hpre => by
          rcases List.prefix_concat_iff.1 hpre with h | h
          · exact heq h.symm
          · exact hp h
        rw [hout _ hp']
        exact hok

theorem remove (hI : Inv W s) (hq : s.queue = e :: rest) (hwd : s.mapWdPath e.wd = some Q)
    (hname : e.name = some name) (hadds : e.kind.adds = false)
    (honly : ∀ p ∈ s.toRemove (Q ++ [name]), Q ++ [name] <+: p) :
    Inv W (remove_path_watch_recursive { s with queue := rest } (Q ++ [name])) := by
  have hM₀ : Maps { s with queue := rest } := ⟨hI.maps.inverse, hI.maps.bound⟩
  obtain ⟨hR, hM⟩ := removeWatches_spec (s.toRemove (Q ++ [name])) hM₀
  change Removed _ _ (remove_path_watch_recursive { s with queue := rest } (Q ++ [name])) at hR
  change Maps (remove_path_watch_recursive { s with queue := rest } (Q ++ [name])) at hM
  generalize remove_path_watch_recursive { s with queue := rest } (Q ++ [name]) = s' at hR hM ⊢
  obtain ⟨es, hes, hnameless⟩ := hR.queue
  have htaken : Taken e s s' := taken_of_queue hq hes fun f hf => (hnameless f hf).1
  have hpath : ∀ p, s'.pathWd p = if Q ++ [name] <+: p then none else s.pathWd p := by
    intro p
    rw [hR.pathWd]
    by_cases hp : Q ++ [name] <+: p
    · rw [if_pos hp]
      split_ifs with hmem
      · rfl
      · by_contra hne
        exact hmem (mem_toRemove.2 ⟨hne, render_above hp⟩)
    · rw [if_neg hp, if_neg fun hmem => hp (honly p hmem)]
      rfl
  have hout : ∀ p, ¬ Q ++ [name] <+: p → s'.pathWd p = s.pathWd p := fun p hp => by
    rw [hpath, if_neg hp]
  have hset : ∀ p, Settled s' p → ¬ Q ++ [name] <+: p → Settled s p := fun p h =>
    htaken.settled hI.maps hwd hname (fun q w hq hw => by rw [hout q hq, hw]) h
  have hQ := not_snoc_prefix Q name
  have hQwd := (hI.maps.inverse _ _).1 hwd
  refine ⟨by rw [hR.tree]; exact hI.root, hM, fun p n hne => ?_, fun f hf => ?_,
    fun p i h hi => ?_, fun p w n h hw => ?_⟩
  · rw [hpath] at hne ⊢
    split_ifs at hne with hpn
    · exact absurd rfl hne
    · rw [if_neg fun h => hpn (h.trans (List.prefix_append p [n]))]
      exact hI.closed p n hne
  · rw [hR.fresh]
    rw [hes] at hf
    rcases List.mem_append.1 hf with hf | hf
    · exact hI.queued f (by rw [hq]; exact List.mem_cons_of_mem e hf)
    · exact ⟨(hnameless f hf).2, fun _ => (hnameless f hf).1⟩
  · rw [hR.tree] at hi
    by_cases hp : Q ++ [name] <+: p
    · -- the last event for the name is this one, so nothing is there
      have hpend : s'.pend e.wd name = [] :=
        h Q name e.wd hp (by rw [hout Q hQ]; exact hQwd)
      have hsetQ := hset Q (h.above ((List.prefix_append Q [name]).trans hp)) hQ
      have hok := hI.ok Q e.wd name hsetQ hQwd
      rw [htaken, if_pos ⟨rfl, hname⟩, hpend] at hok
      have hlast := hok.last e rfl
      rw [if_neg (by simp [hadds])] at hlast
      have hnone : s.tree.inode (W ++ p) ≠ none := by
        change s.tree.inode (W ++ p) = some i at hi
        rw [hi]
        simp
      exact absurd hlast (s.tree.closed _ _ ((List.prefix_append_right_inj W).2 hp) hnone)
    · obtain ⟨w, hw, hmark⟩ := hI.live p i (hset p h hp) hi
      have hw' : s'.pathWd p = some w := by rw [hout p hp, hw]
      exact ⟨w, hw', hR.marks i w p hmark hw'⟩
  · rw [hR.tree]
    have hp : ¬ Q ++ [name] <+: p := fun hp => by
      rw [hpath, if_pos hp] at hw
      cases hw
    rw [hout p hp] at hw
    have hok := hI.ok p w n (hset p h hp) hw
    by_cases heq : p ++ [n] = Q ++ [name]
    · obtain ⟨rfl, rfl⟩ := snoc_inj.1 heq
      obtain rfl : e.wd = w := Option.some.inj (hQwd.symm.trans hw)
      rw [htaken, if_pos ⟨rfl, hname⟩] at hok
      rw [hpath, if_pos (List.prefix_refl _)]
      exact hok.tail_remove
    · rw [htaken.pend_of_ne (Taken.ne_of_ne hI.maps hwd hname hw heq)] at hok
      have hp' : ¬ Q ++ [name] <+: p ++ [n] := fun hpre => by
        rcases List.prefix_concat_iff.1 hpre with h | h
        · exact heq h.symm
        · exact hp h
      rw [hout _ hp']
      exact hok

theorem process (hI : Inv W s) (hq : s.queue = e :: rest) (hgood : Orderly W s .process) :
    Inv W (Watch.process W { s with queue := rest } e) := by
  unfold Watch.process
  split
  · next hwd => exact hI.skip hq fun p hp => absurd (hwd.symm.trans hp) (by simp)
  · next Q hwd =>
    split
    · next hname => exact hI.skip hq fun _ _ => hname
    · next name hname =>
      have hevent := hgood e (by rw [hq]; rfl) Q hwd name hname
      split
      · next hkind =>
        rw [hkind] at hevent
        exact hI.add hq hwd hname (by rw [hkind]; rfl) hevent
      · next hkind =>
        rw [hkind] at hevent
        exact hI.add hq hwd hname (by rw [hkind]; rfl) hevent
      · next hkind =>
        rw [hkind] at hevent
        exact hI.remove hq hwd hname (by rw [hkind]; rfl) hevent
      · next hkind =>
        rw [hkind] at hevent
        exact hI.remove hq hwd hname (by rw [hkind]; rfl) hevent
      · next hkind =>
        -- such an event has no name
        have := (hI.queued e (by rw [hq]; exact List.mem_cons_self)).2 hkind
        rw [hname] at this
        cases this

theorem next (hI : Inv W s) {act : Act} (hgood : Orderly W s act)
    (hn : Watch.next W s act = some s') : Inv W s' := by
  cases act with
  | mkdir p n =>
    simp only [Watch.next, Option.dite_none_right_eq_some, Option.some.injEq] at hn
    obtain ⟨⟨hp, hfree⟩, rfl⟩ := hn
    exact (changed_mkdir hp hfree hI.root).inv hI
  | rmdir p n =>
    simp only [Watch.next] at hn
    split at hn
    · cases hn
    · next i hi =>
      simp only [Option.dite_none_right_eq_some, Option.some.injEq] at hn
      obtain ⟨hempty, rfl⟩ := hn
      exact (changed_rmdir hi hempty hgood).inv hI
  | rename p n q m =>
    obtain ⟨hW, hfree⟩ := hgood
    simp only [Watch.next] at hn
    split at hn
    · cases hn
    · next i hi =>
      simp only [hfree, dite_true, Option.dite_none_right_eq_some, Option.some.injEq] at hn
      obtain ⟨⟨hq, hno⟩, rfl⟩ := hn
      exact (changed_rename hi hq hno hfree hI.root hW).inv hI
  | process =>
    cases hq : s.queue with
    | nil => simp [Watch.next, hq] at hn
    | cons e rest =>
      simp only [Watch.next, hq, Option.some.injEq] at hn
      subst hn
      exact hI.process hq hgood

end Inv

theorem inv_start {tree : DirTree Name} (hW : tree.inode W ≠ none) : Inv W (start W tree) := by
  have hM₀ : Maps ⟨tree, .empty, [], fun _ => none, []⟩ :=
    ⟨by simp [State.pathWd], by simp [State.pathWd]⟩
  obtain ⟨hA, hM, hmem⟩ := addWatches_spec
    (State.under W ⟨tree, .empty, [], fun _ => none, []⟩ []) hM₀ fun p _ _ i _ => rfl
  change Added W _ _ (start W tree) at hA
  change Maps (start W tree) at hM
  change ∀ p ∈ _, tree.inode (W ++ p) ≠ none → (start W tree).pathWd p ≠ none at hmem
  generalize start W tree = s at hA hM hmem ⊢
  have htree : s.tree = tree := hA.tree
  have hqueue : s.queue = [] := hA.queue
  have hall : ∀ p, tree.inode (W ++ p) ≠ none → s.pathWd p ≠ none := fun p hp =>
    hmem p (mem_under.2 ⟨List.nil_prefix, hp⟩) hp
  have hnew : ∀ p w, s.pathWd p = some w → ∃ i, tree.inode (W ++ p) = some i ∧
      s.marks.wd i = some w := fun p w hw => by
    rcases hA.new p w hw with h | ⟨-, -, -, h⟩
    · simp [State.pathWd] at h
    · exact h
  refine ⟨htree ▸ hW, hM, fun p n hne => ?_, by simp [hqueue], fun p i _ hi => ?_,
    fun p w n _ hw => ?_⟩
  · obtain ⟨w, hw⟩ := Option.ne_none_iff_exists'.1 hne
    obtain ⟨i, hi, -⟩ := hnew _ w hw
    exact hall p <| tree.closed _ _
      ((List.prefix_append_right_inj W).2 (List.prefix_append p [n])) (by rw [hi]; simp)
  · rw [htree] at hi
    obtain ⟨w, hw⟩ := Option.ne_none_iff_exists'.1 (hall p (by rw [hi]; simp))
    obtain ⟨j, hj, hmark⟩ := hnew p w hw
    rw [hi, Option.some.injEq] at hj
    exact ⟨w, hw, hj ▸ hmark⟩
  · rw [State.pend, hqueue, List.filter_nil]
    refine ⟨List.isChain_nil, by simp, by simp, fun _ hnone => ?_⟩
    by_contra hne
    obtain ⟨w', hw'⟩ := Option.ne_none_iff_exists'.1 hne
    obtain ⟨i, hi, -⟩ := hnew _ w' hw'
    rw [htree, hi] at hnone
    cases hnone

/-- **A run of orderly steps is sound in all its states**: creations, deletions, renames and moves
in and out, in any order with the processing of their events. -/
theorem sound_of_noneReplaced {tree : DirTree Name} (hW : tree.inode W ≠ none) {acts : List Act}
    (h : (lts W).AllSteps (Orderly W) (start W tree) acts) :
    (lts W).AllStates (Sound W) (start W tree) acts :=
  LTS.allStates_of_allSteps (fun _ hI => hI.sound) (fun _ _ _ hI hG hn => hI.next hG hn)
    (inv_start hW) h

/-- The names `d` and `d2`. -/
def d : Name := ⟨['d'], by decide, by decide⟩

def d2 : Name := ⟨['d', '2'], by decide, by decide⟩

/-- A directory is created, renamed, and deleted. -/
def createRenameDelete : List Act :=
  [.mkdir [] d, .process, .mkdir [d] d2, .process, .rename [] d [] d2, .process, .process,
    .rmdir [d2] d2, .process]

/-- The directories of a run that is orderly. -/
theorem createRenameDelete_sound :
    (lts []).AllStates (Sound []) (start [] DirTree.root) createRenameDelete :=
  sound_of_noneReplaced (by decide) (by decide)

/-- A directory that is not watched, although all events are processed. -/
theorem not_sound_of_dropped (hq : s.queue = []) {p : Path} (hex : s.tree.inode (W ++ p) ≠ none)
    (hnone : s.pathWd p = none) : ¬ Sound W s := by
  intro h
  obtain ⟨i, hi⟩ := Option.ne_none_iff_exists'.1 hex
  have hdone : ∀ j, ¬ s.Pending j := by
    rintro j ⟨e, he, -⟩
    rw [hq] at he
    cases he
  obtain ⟨w, hw, -⟩ := h.watched p i hi fun _ j _ _ => hdone j
  rw [hnone] at hw
  cases hw

/-- `d` and `d2` are created, and `d` is deleted. -/
def deleteSibling : List Act :=
  [.mkdir [] d, .mkdir [] d2, .process, .process, .rmdir [] d, .process, .process, .process]

/-- With all events processed, `d2` exists and is not watched. -/
theorem sibling_dropped : ∃ s, (lts []).run (start [] DirTree.root) deleteSibling = some s ∧
    s.queue = [] ∧ s.tree.inode [d2] ≠ none ∧ s.pathWd [d2] = none ∧ ¬ Sound [] s := by
  have hrun : ∃ s, (lts []).run (start [] DirTree.root) deleteSibling = some s ∧
      s.queue = [] ∧ s.tree.inode [d2] ≠ none ∧ s.pathWd [d2] = none :=
    ⟨_, rfl, rfl, by decide, rfl⟩
  obtain ⟨s, hs, hq, hex, hnone⟩ := hrun
  exact ⟨s, hs, hq, hex, hnone, not_sound_of_dropped hq hex hnone⟩

end Watch

end Swinx
