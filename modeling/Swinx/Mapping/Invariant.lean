import Swinx.Mapping.View
import Mathlib.Data.List.Count
import Mathlib.Data.List.Nodup

/-!
# Views of file mappings: runs

A view is in `m_fmviewMap` under its base, and holds one of the references of its handle, so the
object of a view exists; a pointer that an object has is the base of one of its views.  While the
object remembers the view that is unmapped, `munmap` takes away the pages of this view, and only
those.

* `Inv.map`, `Inv.unmap`, `Inv.close` — the calls keep the invariant.
* `sound_iff_remembered` — a run is sound in all its states if and only if its steps are orderly.
-/

namespace Swinx

namespace Mapping

open Function (update update_of_ne update_self)

variable {π ν : Type*} [DecidableEq π] [DecidableEq ν] {s s' : State π ν}

omit [DecidableEq π] [DecidableEq ν] in
theorem modify_handles (s : State π ν) (h h' : ℕ) (f : Obj π ν → Obj π ν) :
    (s.modify h f).handles h' = (s.handles h').map fun obj => if h' = h then f obj else obj := by
  by_cases hh : h' = h
  · subst hh
    simp [State.modify]
  · simp [State.modify, hh]

omit [DecidableEq π] in
theorem setFmData_handles (s : State π ν) (h h' : ℕ) (obj : Obj π ν) (d : FileMapData) :
    (s.setFmData h obj d).handles h' = (s.handles h').map fun o => if h' = h then
      { o with localFmd := if obj.index = none then d else o.localFmd } else o := by
  by_cases hh : h' = h
  · subst hh
    simp [State.setFmData]
  · simp [State.setFmData, hh]

/-- A view is made: `L` is what happens to the local data. -/
structure Mapped (L : FileMapData → FileMapData) (h : ℕ) (v : View π) (call : MapCall)
    (s s' : State π ν) : Prop where
  next : s'.next = s.next
  others : s'.others = s.others
  unmapped : s'.unmapped = s.unmapped
  mapped : s'.mapped = some call
  views : s'.views = v :: s.views
  mem : s'.mem = update s.mem v.proc
    (mapPages (s.mem v.proc) v.base (pagesOf v.len) (.view v.base))
  viewMap : s.m_fmviewMap v.proc v.base = none → s'.m_fmviewMap =
    update s.m_fmviewMap v.proc
      (update (s.m_fmviewMap v.proc) v.base (some h))
  handles : ∀ h', s'.handles h' = (s.handles h').map fun o => if h' = h then
    { o with nRef := o.nRef + 1, ptr := .page v.base, localFmd := L o.localFmd } else o

theorem MapViewOfFile_cases {h : ℕ} {obj : Obj π ν} {offset n : ℕ} {base : Option ℕ}
    (hn : MapViewOfFile s h obj offset n base = some s') :
    (refuses (s.fmData obj).size offset n ∧
      s' = { s with mapped := some ⟨.null, offset, n, (s.fmData obj).size⟩ }) ∨
    (¬ refuses (s.fmData obj).size offset n ∧
      s' = { s.modify h fun obj => { obj with ptr := .failed } with
        mapped := some ⟨.failed, offset, n, (s.fmData obj).size⟩ }) ∨
    ∃ i L, ¬ refuses (s.fmData obj).size offset n ∧
      MmapOk (s.mem obj.proc) (bytesToMap (s.fmData obj).size offset n) offset i ∧
      Mapped L h ⟨obj.proc, i, bytesToMap (s.fmData obj).size offset n, h⟩
        ⟨.page i, offset, n, (s.fmData obj).size⟩ s s' := by
  unfold MapViewOfFile at hn
  dsimp only at hn
  split_ifs at hn with href
  · exact Or.inl ⟨href, (Option.some.inj hn).symm⟩
  · cases base with
    | none => exact Or.inr (Or.inl ⟨href, (Option.some.inj hn).symm⟩)
    | some i =>
      simp only [Option.ite_none_right_eq_some, Option.some.injEq] at hn
      obtain ⟨hok, rfl⟩ := hn
      refine Or.inr (Or.inr ⟨i, fun d => if obj.index = none then ⟨(s.fmData obj).size, offset,
        bytesToMap (s.fmData obj).size offset n, (s.fmData obj).size_lt⟩ else d, href, hok, rfl,
        rfl, rfl, rfl, rfl, rfl, fun hnone => ?_, fun h' => ?_⟩)
      · simp [State.addMapView, State.setFmData, State.modify, hnone]
      · rw [modify_handles, State.addMapView, modify_handles, setFmData_handles]
        cases s.handles h' with
        | none => rfl
        | some o =>
          by_cases hh : h' = h <;> simp [hh]

theorem unmapObj_handles (s : State π ν) (p : π) (base h h' : ℕ) (obj : Obj π ν) :
    (s.unmapObj p base h obj).handles h' = (s.handles h').map fun o => if h' = h then
      { o with
        ptr := .null
        localFmd := if obj.index = none then { s.fmData obj with mappedSize := 0 }
          else o.localFmd } else o := by
  have hsame : ((s.forget p base obj.ptr (s.fmData obj).mappedSize).munmap p obj.ptr
      (s.fmData obj).mappedSize).handles h' = s.handles h' := rfl
  rw [State.unmapObj, setFmData_handles, modify_handles, hsame]
  cases s.handles h' with
  | none => rfl
  | some o => by_cases hh : h' = h <;> simp [hh]

omit [DecidableEq π] in
theorem closeNull_handles {h : ℕ} {obj : Obj π ν} (ho : s.handles h = some obj) (h' : ℕ) :
    (closeNull s h).handles h' = if h' = h then
      if obj.nRef - 1 = 0 then none else some { obj with nRef := obj.nRef - 1 }
      else s.handles h' := by
  rw [closeNull, ho]
  by_cases hh : h' = h
  · subst hh
    by_cases hzero : obj.nRef - 1 = 0
    · simp [hzero, free]
    · simp [hzero, modify_handles, ho]
  · by_cases hzero : obj.nRef - 1 = 0
    · simp [hzero, free, hh]
    · simp [hzero, modify_handles, hh]

omit [DecidableEq π] in
theorem closeNull_eq (s : State π ν) (h : ℕ) :
    ∃ table, closeNull s h = { s with handles := (closeNull s h).handles, table := table } := by
  unfold closeNull
  split
  · exact ⟨s.table, rfl⟩
  · next obj _ =>
    by_cases hzero : obj.nRef - 1 = 0
    · rw [if_pos hzero]
      exact ⟨_, rfl⟩
    · rw [if_neg hzero]
      exact ⟨s.table, rfl⟩

/-- A view is unmapped, by the handle `h` with the object `obj`. -/
structure Unmapped (p : π) (base h : ℕ) (obj : Obj π ν) (s s' : State π ν) : Prop where
  next : s'.next = s.next
  others : s'.others = s.others
  mapped : s'.mapped = s.mapped
  unmapped : s'.unmapped = (s.views.find? fun v => v.proc = p ∧ v.base = base).map fun v =>
    ⟨v, obj.ptr, (s.fmData obj).mappedSize⟩
  views : s'.views = s.views.filter fun v => ¬ (v.proc = p ∧ v.base = base)
  mem : ∀ i, obj.ptr = .page i → s'.mem = update s.mem p
    (unmapPages (s.mem p) i (pagesOf (s.fmData obj).mappedSize))
  viewMap : s'.m_fmviewMap = update s.m_fmviewMap p
    (update (s.m_fmviewMap p) base none)
  handle : s'.handles h = if obj.nRef - 1 = 0 then none else
    some { obj with
      nRef := obj.nRef - 1
      ptr := .null
      localFmd := if obj.index = none then { s.fmData obj with mappedSize := 0 } else obj.localFmd }
  handles : ∀ h', h' ≠ h → s'.handles h' = s.handles h'

theorem unmapped_removeMapView {p : π} {base h : ℕ} {obj : Obj π ν}
    (hv : s.m_fmviewMap p base = some h) (ho : s.handles h = some obj) :
    Unmapped p base h obj s (removeMapView (s.unmapObj p base h obj) p base) := by
  have hlook : (s.unmapObj p base h obj).m_fmviewMap p base = some h := hv
  have hobj := unmapObj_handles s p base h h obj
  rw [ho, Option.map_some, if_pos rfl] at hobj
  have hclose := closeNull_handles hobj
  obtain ⟨table, heq⟩ := closeNull_eq (s.unmapObj p base h obj) h
  rw [removeMapView, hlook]
  dsimp only
  rw [heq]
  refine ⟨rfl, rfl, rfl, rfl, rfl, fun i hi => ?_, rfl, ?_, fun h' hh => ?_⟩
  · simp [State.unmapObj, State.setFmData, State.modify, State.munmap, State.forget, hi]
  · exact (hclose h).trans (if_pos rfl)
  · refine (hclose h').trans ?_
    rw [if_neg hh, unmapObj_handles]
    simp [hh]

theorem UnmapViewOfFile_cases (s : State π ν) (p : π) (ptr : Ptr) :
    (UnmapViewOfFile s p ptr = s ∧ ∀ base, ptr = .page base → ∀ h, s.m_fmviewMap p base = some h →
      s.handles h = none) ∨
    ∃ base h obj, ptr = .page base ∧ s.m_fmviewMap p base = some h ∧ s.handles h = some obj ∧
      Unmapped p base h obj s (UnmapViewOfFile s p ptr) := by
  cases ptr with
  | null => exact Or.inl ⟨rfl, fun _ h => by cases h⟩
  | failed => exact Or.inl ⟨rfl, fun _ h => by cases h⟩
  | page base =>
    cases hv : s.m_fmviewMap p base with
    | none =>
      refine Or.inl ⟨by simp [UnmapViewOfFile, State.getViewHandle, hv], fun b hb h hh => ?_⟩
      obtain rfl : base = b := by simpa using hb
      simp [hv] at hh
    | some h =>
      cases ho : s.handles h with
      | none =>
        refine Or.inl ⟨by simp [UnmapViewOfFile, State.getViewHandle, hv, ho], fun b hb h' hh => ?_⟩
        obtain rfl : base = b := by simpa using hb
        rw [hv, Option.some.injEq] at hh
        rwa [← hh]
      | some obj =>
        have hU : UnmapViewOfFile s p (.page base) =
            removeMapView (s.unmapObj p base h obj) p base := by
          simp only [UnmapViewOfFile, State.getViewHandle, hv, ho]
        rw [hU]
        exact Or.inr ⟨base, h, obj, rfl, hv, ho, unmapped_removeMapView hv ho⟩

/-- How many references a handle has for itself and for views. -/
def references (views : List (View π)) (h : ℕ) (user : Bool) : ℤ :=
  (if user then 1 else 0) + (views.countP fun v => v.handle = h : ℕ)

/-- **The invariant.** -/
structure Inv (s : State π ν) : Prop where
  sound : Sound s
  fresh : ∀ h obj, s.handles h = some obj → h < s.next
  nonempty : ∀ v ∈ s.views, 0 < v.len
  nodup : s.views.Nodup
  /-- A process has one view at a base. -/
  distinct : ∀ v ∈ s.views, ∀ w ∈ s.views, v.proc = w.proc → v.base = w.base → v = w
  /-- The map has the views. -/
  lookup : ∀ p b h, s.m_fmviewMap p b = some h ↔
    ∃ v ∈ s.views, v.proc = p ∧ v.base = b ∧ v.handle = h
  /-- The references are right. -/
  counted : ∀ h obj, s.handles h = some obj →
    obj.nRef = references s.views h obj.user ∧ 0 < obj.nRef
  /-- A pointer of an object is that of a view of its handle. -/
  pointed : ∀ h obj b, s.handles h = some obj → obj.ptr = .page b →
    ∃ v ∈ s.views, v.proc = obj.proc ∧ v.base = b ∧ v.handle = h

omit [DecidableEq π] [DecidableEq ν] in
theorem inv_init : Inv (init : State π ν) where
  sound := ⟨by simp [init], by simp [init], by simp [init], by simp [init], by simp [init],
    by simp [init]⟩
  fresh := by simp [init]
  nonempty := by simp [init]
  nodup := by simp [init]
  distinct := by simp [init]
  lookup := by simp [init]
  counted := by simp [init]
  pointed := by simp [init]

omit [DecidableEq π] in
theorem references_eq_zero {views : List (View π)} {h : ℕ} (h0 : references views h false = 0) :
    ∀ v ∈ views, v.handle ≠ h := by
  simp only [references, Bool.false_eq_true, if_false, Int.zero_add, Int.natCast_eq_zero,
    List.countP_eq_zero, decide_eq_true_eq] at h0
  exact h0

omit [DecidableEq π] in
theorem references_cons (v : View π) (views : List (View π)) (h : ℕ) (user : Bool) :
    references (v :: views) h user =
      references views h user + if v.handle = h then 1 else 0 := by
  unfold references
  rw [List.countP_cons]
  by_cases hv : v.handle = h
  · simp [hv]
    omega
  · simp [hv]

theorem references_erase {v : View π} {views : List (View π)} (hv : v ∈ views)
    (h : ℕ) (user : Bool) : references (views.erase v) h user =
      references views h user - if v.handle = h then 1 else 0 := by
  have hperm := (List.perm_cons_erase hv).countP_eq fun w => decide (w.handle = h)
  have hcons := references_cons v (views.erase v) h user
  unfold references at hcons ⊢
  rw [hperm]
  omega

namespace Inv

omit [DecidableEq ν] in
theorem view_of_lookup (hI : Inv s) {p : π} {b h : ℕ} (hv : s.m_fmviewMap p b = some h) :
    ∃ v ∈ s.views, v.proc = p ∧ v.base = b ∧ v.handle = h ∧
      (s.views.filter fun v => ¬ (v.proc = p ∧ v.base = b)) = s.views.erase v ∧
      (s.views.find? fun v => v.proc = p ∧ v.base = b) = some v := by
  obtain ⟨v, hmem, hp, hb, hh⟩ := (hI.lookup p b h).1 hv
  have hkey : ∀ w ∈ s.views, w.proc = p ∧ w.base = b → w = v := fun w hw hk =>
    hI.distinct w hw v hmem (hk.1.trans hp.symm) (hk.2.trans hb.symm)
  refine ⟨v, hmem, hp, hb, hh, ?_, ?_⟩
  · rw [hI.nodup.erase_eq_filter]
    refine List.filter_congr fun w hw => ?_
    by_cases hwv : w = v
    · simp [hwv, hp, hb]
    · have : ¬ (w.proc = p ∧ w.base = b) := fun hk => hwv (hkey w hw hk)
      simp [hwv, this]
  · cases hf : s.views.find? fun v => v.proc = p ∧ v.base = b with
    | none =>
      rw [List.find?_eq_none] at hf
      exact absurd (decide_eq_true ⟨hp, hb⟩) (hf v hmem)
    | some w =>
      have hw := List.find?_some hf
      rw [hkey w (List.mem_of_find?_eq_some hf) (of_decide_eq_true hw)]

omit [DecidableEq π] [DecidableEq ν] in
theorem newHandle (hI : Inv s) (p : π) (index : Option ν) (d : FileMapData) :
    Inv (s.newHandle p index d) := by
  have hnone : ∀ v ∈ s.views, v.handle ≠ s.next := fun v hv heq => by
    obtain ⟨obj, hobj, -⟩ := hI.sound.owned v hv
    have := hI.fresh _ _ hobj
    omega
  have hhandles : ∀ h obj, (s.newHandle p index d).handles h = some obj →
      s.handles h = some obj ∧ h < s.next ∨
      h = s.next ∧ obj = ⟨p, index, d, .null, 1, true⟩ := fun h obj ho => by
    by_cases hh : h = s.next
    · subst hh
      simp only [State.newHandle, update_self, Option.some.injEq] at ho
      exact Or.inr ⟨rfl, ho.symm⟩
    · simp only [State.newHandle, update_of_ne hh] at ho
      exact Or.inl ⟨ho, hI.fresh h obj ho⟩
  refine ⟨⟨hI.sound.inside, hI.sound.exact, hI.sound.kept, hI.sound.gone, hI.sound.others,
    fun v hv => ?_⟩, fun h obj ho => ?_, hI.nonempty, hI.nodup, hI.distinct, hI.lookup,
    fun h obj ho => ?_, fun h obj b ho hb => ?_⟩
  · obtain ⟨obj, hobj, hp⟩ := hI.sound.owned v hv
    refine ⟨obj, ?_, hp⟩
    rw [State.newHandle]
    exact (update_of_ne (hnone v hv) _ _).trans hobj
  · show h < s.next + 1
    rcases hhandles h obj ho with ⟨-, hlt⟩ | ⟨rfl, -⟩
    · omega
    · omega
  · rcases hhandles h obj ho with ⟨ho, -⟩ | ⟨rfl, rfl⟩
    · exact hI.counted h obj ho
    · have : (s.views.countP fun v => v.handle = s.next) = 0 := by
        rw [List.countP_eq_zero]
        simpa using hnone
      refine ⟨?_, Int.one_pos⟩
      show (1 : ℤ) = references s.views s.next true
      simp [references, this]
  · rcases hhandles h obj ho with ⟨ho, -⟩ | ⟨rfl, rfl⟩
    · exact hI.pointed h obj b ho hb
    · cases hb

omit [DecidableEq π] [DecidableEq ν] in
theorem of_call (hI : Inv s) {call : MapCall}
    (hcall : call.ret ≠ .null → call.offset + call.length ≤ call.size) :
    Inv { s with mapped := some call } where
  sound := ⟨fun _ hc => Option.some.inj hc ▸ hcall, hI.sound.exact, hI.sound.kept, hI.sound.gone,
    hI.sound.others, hI.sound.owned⟩
  fresh := hI.fresh
  nonempty := hI.nonempty
  nodup := hI.nodup
  distinct := hI.distinct
  lookup := hI.lookup
  counted := hI.counted
  pointed := hI.pointed

omit [DecidableEq π] [DecidableEq ν] in
/-- A handle is written to, and keeps its process and its references. -/
theorem modify (hI : Inv s) {h : ℕ} {f : Obj π ν → Obj π ν} (hproc : ∀ o, (f o).proc = o.proc)
    (href : ∀ o, (f o).nRef = o.nRef ∧ (f o).user = o.user) (hptr : ∀ o b, (f o).ptr ≠ .page b) :
    Inv (s.modify h f) := by
  have hhandles : ∀ h' o, (s.modify h f).handles h' = some o →
      ∃ o', s.handles h' = some o' ∧ (if h' = h then f o' else o') = o := fun h' o ho => by
    rw [modify_handles, Option.map_eq_some_iff] at ho
    exact ho
  refine ⟨⟨hI.sound.inside, hI.sound.exact, hI.sound.kept, hI.sound.gone, hI.sound.others,
    fun v hv => ?_⟩, fun h' o ho => ?_, hI.nonempty, hI.nodup, hI.distinct, hI.lookup,
    fun h' o ho => ?_, fun h' o b ho hb => ?_⟩
  · obtain ⟨o, ho, hp⟩ := hI.sound.owned v hv
    refine ⟨_, by rw [modify_handles, ho, Option.map_some], ?_⟩
    split_ifs
    · rw [hproc, hp]
    · exact hp
  · obtain ⟨o', ho', -⟩ := hhandles h' o ho
    exact hI.fresh h' o' ho'
  · obtain ⟨o', ho', rfl⟩ := hhandles h' o ho
    split_ifs
    · rw [(href o').1, (href o').2]
      exact hI.counted h' o' ho'
    · exact hI.counted h' o' ho'
  · obtain ⟨o', ho', rfl⟩ := hhandles h' o ho
    split_ifs at hb ⊢
    · exact absurd hb (hptr o' b)
    · exact hI.pointed h' o' b ho' hb

section Map

variable {L : FileMapData → FileMapData} {h : ℕ} {v : View π} {call : MapCall} {obj : Obj π ν}

omit [DecidableEq ν]

omit [DecidableEq π] in
/-- No view begins in a free page. -/
theorem not_base_of_free (hI : Inv s) (hlen : 0 < v.len)
    (hfree : FreePages (s.mem v.proc) v.base (pagesOf v.len)) {w : View π} (hw : w ∈ s.views) :
    ¬ (w.proc = v.proc ∧ w.base = v.base) := by
  rintro ⟨hp, hb⟩
  have hpage := hI.sound.kept w hw w.base
    ⟨le_rfl, Nat.lt_add_of_pos_right (pagesOf_pos (hI.nonempty w hw))⟩
  rw [hp, hb, hfree.eq_none ⟨le_rfl, Nat.lt_add_of_pos_right (pagesOf_pos hlen)⟩] at hpage
  cases hpage

theorem handles_mapped (hM : Mapped L h v call s s') {h' : ℕ} {o : Obj π ν}
    (hx : s'.handles h' = some o) : ∃ o', s.handles h' = some o' ∧
      (if h' = h then { o' with nRef := o'.nRef + 1, ptr := .page v.base,
                                localFmd := L o'.localFmd } else o') = o := by
  rwa [hM.handles, Option.map_eq_some_iff] at hx

theorem sound_mapped (hI : Inv s) (ho : s.handles h = some obj) (hproc : v.proc = obj.proc)
    (hh : v.handle = h) (hfree : FreePages (s.mem v.proc) v.base (pagesOf v.len))
    (hcall : call.offset + call.length ≤ call.size) (hM : Mapped L h v call s s') : Sound s' := by
  have hS := hI.sound
  have hmem : ∀ p i b, s'.mem p i = some b ↔ s.mem p i = some b ∨
      p = v.proc ∧ (v.base ≤ i ∧ i < v.base + pagesOf v.len) ∧ Owner.view v.base = b := by
    intro p i b
    rw [hM.mem]
    by_cases hp : p = v.proc
    · subst hp
      rw [update_self, mapPages_eq_some hfree]
      simp
    · rw [update_of_ne hp]
      simp [hp]
  refine ⟨fun c hc _ => ?_, ?_, fun w hw i hi => ?_, fun p i b hb => ?_, fun p i => ?_,
    fun w hw => ?_⟩
  · rw [hM.mapped] at hc
    exact Option.some.inj hc ▸ hcall
  · rw [hM.unmapped]
    exact hS.exact
  · rw [hM.views] at hw
    rcases List.mem_cons.1 hw with rfl | hw
    · exact (hmem _ _ _).2 (Or.inr ⟨rfl, hi, rfl⟩)
    · exact (hmem _ _ _).2 (Or.inl (hS.kept w hw i hi))
  · rw [hM.views]
    rcases (hmem _ _ _).1 hb with hb | ⟨rfl, hi, heq⟩
    · obtain ⟨w, hw, hrest⟩ := hS.gone p i b hb
      exact ⟨w, List.mem_cons_of_mem v hw, hrest⟩
    · obtain rfl : v.base = b := by simpa using heq
      exact ⟨v, List.mem_cons_self, rfl, rfl, hi⟩
  · rw [hM.others, ← hS.others, hmem]
    simp
  · rw [hM.views] at hw
    rw [hM.handles]
    rcases List.mem_cons.1 hw with rfl | hw
    · refine ⟨_, by rw [hh, ho, Option.map_some], ?_⟩
      simp [hproc]
    · obtain ⟨o, ho, hp⟩ := hS.owned w hw
      refine ⟨_, by rw [ho, Option.map_some], ?_⟩
      by_cases hwh : w.handle = h <;> simp [hwh, hp]

theorem lookup_mapped (hI : Inv s) (hh : v.handle = h) (hlen : 0 < v.len)
    (hfree : FreePages (s.mem v.proc) v.base (pagesOf v.len)) (hM : Mapped L h v call s s')
    (p : π) (b h' : ℕ) : s'.m_fmviewMap p b = some h' ↔
      ∃ w ∈ s'.views, w.proc = p ∧ w.base = b ∧ w.handle = h' := by
  have hnone : s.m_fmviewMap v.proc v.base = none := by
    by_contra hne
    obtain ⟨h', hv'⟩ := Option.ne_none_iff_exists'.1 hne
    obtain ⟨w, hw, hp, hb, -⟩ := (hI.lookup _ _ _).1 hv'
    exact hI.not_base_of_free hlen hfree hw ⟨hp, hb⟩
  rw [hM.viewMap hnone, hM.views]
  by_cases hp : p = v.proc
  · subst hp
    rw [update_self]
    by_cases hb : b = v.base
    · subst hb
      rw [update_self]
      constructor
      · intro heq
        exact ⟨v, List.mem_cons_self, rfl, rfl, by rw [hh]; simpa using heq⟩
      · rintro ⟨w, hw, hwp, hwb, rfl⟩
        rcases List.mem_cons.1 hw with rfl | hw
        · rw [hh]
        · exact absurd ⟨hwp, hwb⟩ (hI.not_base_of_free hlen hfree hw)
    · rw [update_of_ne hb, hI.lookup]
      simp [Ne.symm hb]
  · rw [update_of_ne hp, hI.lookup]
    simp [Ne.symm hp]

theorem counted_mapped (hI : Inv s) (hh : v.handle = h) (hM : Mapped L h v call s s') {h' : ℕ}
    {o : Obj π ν} (hx : s'.handles h' = some o) :
    o.nRef = references s'.views h' o.user ∧ 0 < o.nRef := by
  obtain ⟨o', ho', rfl⟩ := handles_mapped hM hx
  obtain ⟨hcount, hpos⟩ := hI.counted h' o' ho'
  rw [hM.views, references_cons, hh]
  by_cases hh' : h' = h
  · subst hh'
    simp only [if_true]
    omega
  · simp only [hh', if_false, Ne.symm hh']
    omega

theorem pointed_mapped (hI : Inv s) (ho : s.handles h = some obj) (hproc : v.proc = obj.proc)
    (hh : v.handle = h) (hM : Mapped L h v call s s') {h' b : ℕ} {o : Obj π ν}
    (hx : s'.handles h' = some o) (hb : o.ptr = .page b) :
    ∃ w ∈ s'.views, w.proc = o.proc ∧ w.base = b ∧ w.handle = h' := by
  obtain ⟨o', ho', rfl⟩ := handles_mapped hM hx
  rw [hM.views]
  by_cases hh' : h' = h
  · subst hh'
    rw [ho, Option.some.injEq] at ho'
    subst ho'
    simp only [if_true, Ptr.page.injEq] at hb
    exact ⟨v, List.mem_cons_self, by simp [hproc], hb, hh⟩
  · simp only [hh', if_false] at hb ⊢
    obtain ⟨w, hw, hrest⟩ := hI.pointed h' o' b ho' hb
    exact ⟨w, List.mem_cons_of_mem v hw, hrest⟩

theorem mapped (hI : Inv s) (ho : s.handles h = some obj) (hproc : v.proc = obj.proc)
    (hh : v.handle = h) (hlen : 0 < v.len)
    (hfree : FreePages (s.mem v.proc) v.base (pagesOf v.len))
    (hcall : call.offset + call.length ≤ call.size) (hM : Mapped L h v call s s') : Inv s' where
  sound := hI.sound_mapped ho hproc hh hfree hcall hM
  fresh h' o hx := by
    obtain ⟨o', ho', -⟩ := handles_mapped hM hx
    rw [hM.next]
    exact hI.fresh h' o' ho'
  nonempty w hw := by
    rw [hM.views] at hw
    rcases List.mem_cons.1 hw with rfl | hw
    · exact hlen
    · exact hI.nonempty w hw
  nodup := by
    rw [hM.views]
    exact List.nodup_cons.2 ⟨fun hv => hI.not_base_of_free hlen hfree hv ⟨rfl, rfl⟩, hI.nodup⟩
  distinct w hw w' hw' hp hb := by
    rw [hM.views] at hw hw'
    rcases List.mem_cons.1 hw with hwv | hwm <;> rcases List.mem_cons.1 hw' with hwv' | hwm'
    · rw [hwv, hwv']
    · exact absurd ⟨hwv ▸ hp.symm, hwv ▸ hb.symm⟩ (hI.not_base_of_free hlen hfree hwm')
    · exact absurd ⟨hwv' ▸ hp, hwv' ▸ hb⟩ (hI.not_base_of_free hlen hfree hwm)
    · exact hI.distinct w hwm w' hwm' hp hb
  lookup := hI.lookup_mapped hh hlen hfree hM
  counted _ _ hx := hI.counted_mapped hh hM hx
  pointed _ _ _ hx hb := hI.pointed_mapped ho hproc hh hM hx hb

end Map

section Unmap

variable {p : π} {base h : ℕ} {obj : Obj π ν} {v : View π}

omit [DecidableEq ν]

theorem handles_unmapped (hU : Unmapped p base h obj s s') {h' : ℕ} {o : Obj π ν}
    (hx : s'.handles h' = some o) : (h' ≠ h ∧ s.handles h' = some o) ∨
      (h' = h ∧ o.proc = obj.proc ∧ o.ptr = .null ∧ o.nRef = obj.nRef - 1 ∧ o.user = obj.user ∧
        obj.nRef - 1 ≠ 0) := by
  by_cases hh : h' = h
  · subst hh
    rw [hU.handle] at hx
    by_cases hzero : obj.nRef - 1 = 0
    · rw [if_pos hzero] at hx
      cases hx
    · rw [if_neg hzero] at hx
      obtain rfl := Option.some.inj hx
      exact Or.inr ⟨rfl, rfl, rfl, rfl, rfl, hzero⟩
  · rw [hU.handles h' hh] at hx
    exact Or.inl ⟨hh, hx⟩

theorem mem_erase_iff (hI : Inv s) (hviews : s'.views = s.views.erase v) {w : View π} :
    w ∈ s'.views ↔ w ∈ s.views ∧ w ≠ v := by
  rw [hviews, hI.nodup.mem_erase_iff, and_comm]

/-- The object of another view of the handle stays, since this view has a reference. -/
theorem owned_unmapped (hI : Inv s) (ho : s.handles h = some obj) (hvmem : v ∈ s.views)
    (hvh : v.handle = h) (hviews : s'.views = s.views.erase v)
    (hU : Unmapped p base h obj s s') {w : View π} (hw : w ∈ s'.views) :
    ∃ o, s'.handles w.handle = some o ∧ o.proc = w.proc := by
  obtain ⟨o, hx, hp⟩ := hI.sound.owned w ((hI.mem_erase_iff hviews).1 hw).1
  by_cases hh : w.handle = h
  · rw [hh, ho, Option.some.injEq] at hx
    subst hx
    have hpos : 0 < (s.views.erase v).countP fun w => decide (w.handle = h) :=
      List.countP_pos_iff.2 ⟨w, hviews ▸ hw, by simp [hh]⟩
    have hrefs := references_erase hvmem h obj.user
    rw [if_pos hvh, ← (hI.counted h obj ho).1] at hrefs
    have hne : obj.nRef - 1 ≠ 0 := by
      rw [← hrefs, references]
      split_ifs <;> omega
    rw [hh, hU.handle, if_neg hne]
    exact ⟨_, rfl, hp⟩
  · rw [hU.handles _ hh]
    exact ⟨o, hx, hp⟩

theorem sound_unmapped (hI : Inv s) (ho : s.handles h = some obj) (hptr : obj.ptr = .page base)
    (hvmem : v ∈ s.views) (hvp : v.proc = p) (hvb : v.base = base) (hvh : v.handle = h)
    (hpages : pagesOf (s.fmData obj).mappedSize = pagesOf v.len)
    (hviews : s'.views = s.views.erase v)
    (hfind : (s.views.find? fun v => v.proc = p ∧ v.base = base) = some v)
    (hU : Unmapped p base h obj s s') : Sound s' := by
  have hS := hI.sound
  have hmem : ∀ q i b, s'.mem q i = some b ↔ s.mem q i = some b ∧
      ¬ (q = p ∧ base ≤ i ∧ i < base + pagesOf v.len) := by
    intro q i b
    rw [hU.mem base hptr, hpages]
    by_cases hq : q = p
    · subst hq
      rw [update_self, unmapPages_eq_some]
      simp
    · rw [update_of_ne hq]
      simp [hq]
  refine ⟨?_, fun u hu => ?_, fun w hw i hi => ?_, fun q i b hb => ?_, fun q i => ?_,
    fun w hw => hI.owned_unmapped ho hvmem hvh hviews hU hw⟩
  · rw [hU.mapped]
    exact hS.inside
  · rw [hU.unmapped, hfind] at hu
    obtain rfl := Option.some.inj hu
    exact ⟨by rw [hptr, hvb], hpages⟩
  · obtain ⟨hwmem, hwv⟩ := (hI.mem_erase_iff hviews).1 hw
    refine (hmem _ _ _).2 ⟨hS.kept w hwmem i hi, ?_⟩
    rintro ⟨hwp, hi'⟩
    -- a page of two views
    have hpage := hS.kept v hvmem i (hvb ▸ hi')
    rw [hvp, ← hwp, hS.kept w hwmem i hi, Option.some.injEq, Owner.view.injEq] at hpage
    exact hwv (hI.distinct w hwmem v hvmem (hwp.trans hvp.symm) hpage)
  · obtain ⟨hold, hout⟩ := (hmem _ _ _).1 hb
    obtain ⟨w, hw, hwp, hwb, hi⟩ := hS.gone q i b hold
    refine ⟨w, (hI.mem_erase_iff hviews).2 ⟨hw, ?_⟩, hwp, hwb, hi⟩
    rintro rfl
    exact hout ⟨hwp.symm.trans hvp, by rwa [← hvb, hwb]⟩
  · rw [hU.others, ← hS.others, hmem]
    refine ⟨fun hx => hx.1, fun hx => ⟨hx, ?_⟩⟩
    rintro ⟨rfl, hi⟩
    have hpage := hS.kept v hvmem i (hvb ▸ hi)
    rw [hvp, hx] at hpage
    cases hpage

theorem lookup_unmapped (hI : Inv s) (hvmem : v ∈ s.views) (hvp : v.proc = p)
    (hvb : v.base = base) (hviews : s'.views = s.views.erase v)
    (hU : Unmapped p base h obj s s') (q : π) (b h' : ℕ) : s'.m_fmviewMap q b = some h' ↔
      ∃ w ∈ s'.views, w.proc = q ∧ w.base = b ∧ w.handle = h' := by
  have hiff : (∃ w ∈ s'.views, w.proc = q ∧ w.base = b ∧ w.handle = h') ↔
      (∃ w ∈ s.views, w.proc = q ∧ w.base = b ∧ w.handle = h') ∧ ¬ (q = p ∧ b = base) := by
    constructor
    · rintro ⟨w, hw, hwp, hwb, hwh⟩
      obtain ⟨hwmem, hwv⟩ := (hI.mem_erase_iff hviews).1 hw
      refine ⟨⟨w, hwmem, hwp, hwb, hwh⟩, fun hk => hwv ?_⟩
      exact hI.distinct w hwmem v hvmem (by rw [hwp, hk.1, hvp]) (by rw [hwb, hk.2, hvb])
    · rintro ⟨⟨w, hw, hwp, hwb, hwh⟩, hk⟩
      refine ⟨w, (hI.mem_erase_iff hviews).2 ⟨hw, ?_⟩, hwp, hwb, hwh⟩
      rintro rfl
      exact hk ⟨hwp.symm.trans hvp, hwb.symm.trans hvb⟩
  rw [hU.viewMap, hiff, ← hI.lookup]
  by_cases hq : q = p
  · subst hq
    rw [update_self]
    by_cases hb : b = base
    · subst hb
      simp
    · rw [update_of_ne hb]
      simp [hb]
  · rw [update_of_ne hq]
    simp [hq]

theorem counted_unmapped (hI : Inv s) (ho : s.handles h = some obj) (hvmem : v ∈ s.views)
    (hvh : v.handle = h) (hviews : s'.views = s.views.erase v)
    (hU : Unmapped p base h obj s s') {h' : ℕ} {o : Obj π ν} (hx : s'.handles h' = some o) :
    o.nRef = references s'.views h' o.user ∧ 0 < o.nRef := by
  obtain ⟨hcount, hpos⟩ := hI.counted h obj ho
  rw [hviews, references_erase hvmem, hvh]
  rcases handles_unmapped hU hx with ⟨hne, hx⟩ | ⟨rfl, -, -, hn, hu, hzero⟩
  · rw [if_neg (Ne.symm hne), Int.sub_zero]
    exact hI.counted h' o hx
  · rw [hn, hu, if_pos rfl, ← hcount]
    exact ⟨rfl, by omega⟩

theorem unmapped (hI : Inv s) (hv : s.m_fmviewMap p base = some h)
    (ho : s.handles h = some obj) (hptr : obj.ptr = .page base)
    (hsize : ∀ v ∈ s.views, v.proc = p → v.base = base →
      pagesOf (s.fmData obj).mappedSize = pagesOf v.len)
    (hU : Unmapped p base h obj s s') : Inv s' := by
  obtain ⟨v, hvmem, hvp, hvb, hvh, herase, hfind⟩ := hI.view_of_lookup hv
  have hviews : s'.views = s.views.erase v := hU.views.trans herase
  have hmem' : ∀ w, w ∈ s'.views ↔ w ∈ s.views ∧ w ≠ v := fun w => hI.mem_erase_iff hviews
  refine ⟨hI.sound_unmapped ho hptr hvmem hvp hvb hvh (hsize v hvmem hvp hvb) hviews hfind hU,
    fun h' o hx => ?_, fun w hw => hI.nonempty w ((hmem' w).1 hw).1, ?_,
    fun w hw w' hw' => hI.distinct w ((hmem' w).1 hw).1 w' ((hmem' w').1 hw').1,
    hI.lookup_unmapped hvmem hvp hvb hviews hU,
    fun h' o hx => hI.counted_unmapped ho hvmem hvh hviews hU hx, fun h' o b hx hb => ?_⟩
  · rw [hU.next]
    rcases handles_unmapped hU hx with ⟨-, hx⟩ | ⟨rfl, -⟩
    · exact hI.fresh h' o hx
    · exact hI.fresh h' obj ho
  · rw [hviews]
    exact hI.nodup.erase v
  · rcases handles_unmapped hU hx with ⟨hne, hx⟩ | ⟨-, -, hnull, -⟩
    · obtain ⟨w, hw, hwp, hwb, hwh⟩ := hI.pointed h' o b hx hb
      refine ⟨w, (hmem' w).2 ⟨hw, ?_⟩, hwp, hwb, hwh⟩
      rintro rfl
      exact hne (hwh.symm.trans hvh)
    · rw [hnull] at hb
      cases hb

end Unmap

/-- The last reference of the handle, or one of them, is given back. -/
theorem close (hI : Inv s) {h : ℕ} {obj : Obj π ν} (ho : s.handles h = some obj)
    (huser : obj.user = true) :
    Inv (CloseHandle (s.modify h fun obj => { obj with user := false }) h) := by
  have hS := hI.sound
  obtain ⟨hcount, hpos⟩ := hI.counted h obj ho
  have hrefs : obj.nRef - 1 = references s.views h false := by
    rw [hcount, huser]
    simp only [references, if_true, Bool.false_eq_true, if_false]
    omega
  have ho' : (s.modify h fun obj => { obj with user := false }).handles h =
      some { obj with user := false } := by
    rw [modify_handles, ho, Option.map_some, if_pos rfl]
  rw [CloseHandle, ho']
  dsimp only
  generalize ht : (s.modify h fun obj => { obj with user := false }).modify h
    (fun obj => { obj with nRef := obj.nRef - 1 }) = t
  have hback : ∀ h' o, t.handles h' = some o → (h' ≠ h ∧ s.handles h' = some o) ∨
      (h' = h ∧ o = { obj with user := false, nRef := obj.nRef - 1 }) := by
    intro h' o hx
    rw [← ht, modify_handles, modify_handles] at hx
    by_cases hh : h' = h
    · subst hh
      simp only [ho, if_true, Option.map_some, Option.some.injEq] at hx
      exact Or.inr ⟨rfl, hx.symm⟩
    · refine Or.inl ⟨hh, ?_⟩
      simpa [hh] using hx
  have hother : ∀ h', h' ≠ h → t.handles h' = s.handles h' := fun h' hh => by
    rw [← ht, modify_handles, modify_handles]
    simp [hh]
  have hth : t.handles h = some { obj with user := false, nRef := obj.nRef - 1 } := by
    rw [← ht, modify_handles, ho', Option.map_some, if_pos rfl]
  have htrest : t = { s with handles := t.handles } := by
    rw [← ht]
    rfl
  by_cases hzero : obj.nRef - 1 = 0
  · rw [if_pos hzero]
    have hnone := references_eq_zero (hrefs.symm.trans hzero)
    -- an object without views has no pointer that is found
    have hunmap : (if obj.index ≠ none ∧ obj.ptr ≠ .null then UnmapViewOfFile t obj.proc obj.ptr
        else t) = t := by
      split_ifs with hcond
      · cases hp : obj.ptr with
        | null => rfl
        | failed => rfl
        | page b =>
          obtain ⟨v, hv, -, -, hvh⟩ := hI.pointed h obj b ho hp
          exact absurd hvh (hnone v hv)
      · rfl
    rw [hunmap]
    have hfree : ∀ h', (free t h { obj with user := false }).handles h' =
        if h' = h then none else s.handles h' := fun h' => by
      rw [free]
      by_cases hh : h' = h
      · subst hh
        simp
      · simp [hh, hother h' hh]
    have hlive : ∀ h' o, (free t h { obj with user := false }).handles h' = some o →
        s.handles h' = some o := fun h' o hx => by
      rw [hfree] at hx
      split_ifs at hx
      exact hx
    have hrest : ∃ table, free t h { obj with user := false } = { s with
        handles := (free t h { obj with user := false }).handles
        table := table } := by
      rw [free, htrest]
      exact ⟨_, rfl⟩
    obtain ⟨table, heq⟩ := hrest
    rw [heq]
    refine ⟨⟨hS.inside, hS.exact, hS.kept, hS.gone, hS.others, fun v hv => ?_⟩,
      fun h' o hx => hI.fresh h' o (hlive h' o hx), hI.nonempty, hI.nodup, hI.distinct, hI.lookup,
      fun h' o hx => hI.counted h' o (hlive h' o hx),
      fun h' o b hx => hI.pointed h' o b (hlive h' o hx)⟩
    obtain ⟨o, hx, hp⟩ := hS.owned v hv
    exact ⟨o, by rw [hfree, if_neg (hnone v hv), hx], hp⟩
  · rw [if_neg hzero, htrest]
    refine ⟨⟨hS.inside, hS.exact, hS.kept, hS.gone, hS.others, fun v hv => ?_⟩,
      fun h' o hx => ?_, hI.nonempty, hI.nodup, hI.distinct, hI.lookup, fun h' o hx => ?_,
      fun h' o b hx hb => ?_⟩
    · obtain ⟨o, hx, hp⟩ := hS.owned v hv
      by_cases hh : v.handle = h
      · rw [hh, ho, Option.some.injEq] at hx
        subst hx
        rw [hh]
        exact ⟨_, hth, hp⟩
      · exact ⟨o, (hother _ hh).trans hx, hp⟩
    · rcases hback h' o hx with ⟨-, hx⟩ | ⟨rfl, -⟩
      · exact hI.fresh h' o hx
      · exact hI.fresh h' obj ho
    · rcases hback h' o hx with ⟨-, hx⟩ | ⟨rfl, rfl⟩
      · exact hI.counted h' o hx
      · exact ⟨hrefs, by show 0 < obj.nRef - 1; omega⟩
    · rcases hback h' o hx with ⟨-, hx⟩ | ⟨rfl, rfl⟩
      · exact hI.pointed h' o b hx hb
      · exact hI.pointed h' obj b ho hb

omit [DecidableEq ν] in
theorem other (hI : Inv s) {p : π} {i : ℕ} {m : Option Owner} {b : Bool}
    (hnot : ∀ a, s.mem p i ≠ some (.view a)) (hm : m = some .other ↔ b = true)
    (hview : ∀ a, m ≠ some (.view a)) :
    Inv { s with
      mem := update s.mem p (update (s.mem p) i m)
      others := update s.others p (update (s.others p) i b) } := by
  have hS := hI.sound
  have hmem : ∀ q j, update s.mem p (update (s.mem p) i m) q j =
      if q = p ∧ j = i then m else s.mem q j := by
    intro q j
    by_cases hq : q = p
    · subst hq
      by_cases hj : j = i <;> simp [hj]
    · simp [hq]
  refine ⟨⟨hS.inside, hS.exact, fun v hv j hj => ?_, fun q j a ha => ?_, fun q j => ?_, hS.owned⟩,
    hI.fresh, hI.nonempty, hI.nodup, hI.distinct, hI.lookup, hI.counted, hI.pointed⟩
  · have hold := hS.kept v hv j hj
    refine (hmem v.proc j).trans ?_
    rw [if_neg, hold]
    rintro ⟨rfl, rfl⟩
    exact hnot _ hold
  · replace ha := (hmem q j).symm.trans ha
    split_ifs at ha
    · exact absurd ha (hview a)
    · exact hS.gone q j a ha
  · change update s.mem p _ q j = _ ↔ update s.others p _ q j = _
    rw [hmem]
    by_cases hk : q = p ∧ j = i
    · obtain ⟨rfl, rfl⟩ := hk
      simp [hm]
    · rw [if_neg hk, hS.others]
      by_cases hq : q = p
      · subst hq
        have hj : j ≠ i := fun h => hk ⟨rfl, h⟩
        simp [hj]
      · simp [hq]

omit [DecidableEq π] [DecidableEq ν] in
theorem of_table (hI : Inv s) (table : ν → Entry) : Inv { s with table := table } :=
  ⟨⟨hI.sound.inside, hI.sound.exact, hI.sound.kept, hI.sound.gone, hI.sound.others,
    hI.sound.owned⟩, hI.fresh, hI.nonempty, hI.nodup, hI.distinct, hI.lookup, hI.counted,
    hI.pointed⟩

omit [DecidableEq π] in
theorem openEntry (hI : Inv s) (p : π) (name : ν) : Inv (s.openEntry p name) :=
  (hI.of_table _).newHandle p _ _

end Inv

omit [DecidableEq π] [DecidableEq ν] in
theorem usable_eq_some {h : ℕ} {obj : Obj π ν} (hu : s.usable h = some obj) :
    s.handles h = some obj ∧ obj.user = true :=
  Option.filter_eq_some_iff.1 hu

theorem inside_iff {size offset n : ℕ} (hsize : size < 9223372036854775808)
    (hoffset : offset < 18446744073709551616) (hn : n < 18446744073709551616) :
    (¬ refuses size offset n → offset + n ≤ size) ↔
      (offset + n < 9223372036854775808 ∨
        18446744073709551616 + size < offset + n ∧ offset + n < 27670116110564327424) := by
  unfold refuses toLongLong
  split_ifs with hlt
  · omega
  · omega

theorem quadPart_lt (high low : UInt32) : quadPart high low < 18446744073709551616 := by
  have := high.toNat_lt
  have := low.toNat_lt
  unfold quadPart
  omega

namespace Inv

/-- `MapViewOfFile` keeps the invariant where its test is right. -/
theorem map (hI : Inv s) {h offset n : ℕ} {obj : Obj π ν} {base : Option ℕ}
    (ho : s.handles h = some obj)
    (hright : ¬ refuses (s.fmData obj).size offset n → offset + n ≤ (s.fmData obj).size)
    (hn : MapViewOfFile s h obj offset n base = some s') : Inv s' := by
  rcases MapViewOfFile_cases hn with ⟨-, rfl⟩ | ⟨href, rfl⟩ | ⟨i, L, href, hok, hM⟩
  · exact hI.of_call fun h => absurd rfl h
  · have hfailed : Inv (s.modify h fun obj => { obj with ptr := .failed }) :=
      hI.modify (fun _ => rfl) (fun _ => ⟨rfl, rfl⟩) (by simp)
    refine hfailed.of_call ?_
    exact fun _ => hright href
  · obtain ⟨hlen, -, -, -, hfree⟩ := hok
    exact hI.mapped ho rfl rfl hlen hfree (hright href) hM

theorem next (hI : Inv s) {act : Act π ν} (hgood : Orderly s act)
    (hn : Mapping.next s act = some s') : Inv s' := by
  cases act with
  | create p name high low =>
    obtain rfl := Option.some.inj hn
    unfold CreateFileMappingA
    split_ifs
    · exact hI.openEntry p name
    · exact (hI.of_table _).openEntry p name
    · exact hI
  | createFile p size =>
    simp only [Mapping.next, Option.dite_none_right_eq_some, Option.some.injEq] at hn
    obtain ⟨hsize, rfl⟩ := hn
    exact hI.newHandle p none _
  | openMapping p name =>
    obtain rfl := Option.some.inj hn
    unfold OpenFileMappingA
    split_ifs
    · exact hI.openEntry p name
    · exact hI
  | map h high low n base =>
    simp only [Mapping.next] at hn
    split at hn
    · cases hn
    · next obj hu =>
      refine hI.map (usable_eq_some hu).1 ?_ hn
      exact (inside_iff (s.fmData obj).size_lt (quadPart_lt high low) n.toNat_lt).2 (hgood obj hu)
  | unmap p ptr =>
    obtain rfl := Option.some.inj hn
    rcases UnmapViewOfFile_cases s p ptr with ⟨heq, -⟩ | ⟨base, h, obj, rfl, hv, ho, hU⟩
    · rwa [heq]
    · obtain ⟨v, hvmem, hvp, hvb, hvh⟩ := (hI.lookup _ _ _).1 hv
      have hobj := hgood v hvmem hvp (by rw [hvb]) obj (by rw [hvh]; exact ho)
      refine hI.unmapped hv ho hobj.1 (fun w hw hwp hwb => ?_) hU
      rw [hI.distinct w hw v hvmem (hwp.trans hvp.symm) (hwb.trans hvb.symm)]
      exact hobj.2
  | close h =>
    simp only [Mapping.next] at hn
    split at hn
    · cases hn
    · next obj hu =>
      obtain rfl := Option.some.inj hn
      obtain ⟨ho, huser⟩ := usable_eq_some hu
      exact hI.close ho huser
  | otherMap p i =>
    simp only [Mapping.next, Option.ite_none_right_eq_some, Option.some.injEq] at hn
    obtain ⟨⟨hnone, -⟩, rfl⟩ := hn
    exact hI.other (by simp [hnone]) (by simp) (by simp)
  | otherUnmap p i =>
    simp only [Mapping.next, Option.ite_none_right_eq_some, Option.some.injEq] at hn
    obtain ⟨hother, rfl⟩ := hn
    exact hI.other (by simp [hother]) (by simp) (by simp)

theorem orderly_of_sound (hI : Inv s) {act : Act π ν} (hn : Mapping.next s act = some s')
    (hS' : Sound s') : Orderly s act := by
  cases act with
  | map h high low n base =>
    intro obj hu
    have hn' : MapViewOfFile s h obj (quadPart high low) n.toNat base = some s' := by
      simp only [Mapping.next] at hn
      rwa [show s.usable h = some obj from hu] at hn
    refine (inside_iff (s.fmData obj).size_lt (quadPart_lt high low) n.toNat_lt).1 fun href => ?_
    rcases MapViewOfFile_cases hn' with ⟨href', -⟩ | ⟨-, rfl⟩ | ⟨i, L, -, -, hM⟩
    · exact absurd href' href
    · exact hS'.inside _ rfl (by simp)
    · exact hS'.inside _ hM.mapped (by simp)
  | unmap p ptr =>
    intro v hv hvp hptr obj ho
    obtain rfl := Option.some.inj hn
    have hlook := (hI.lookup p v.base v.handle).2 ⟨v, hv, hvp, rfl, rfl⟩
    rcases UnmapViewOfFile_cases s p ptr with ⟨-, hnone⟩ | ⟨base, h, obj', rfl, hlook', ho', hU⟩
    · have hgone := hnone v.base hptr v.handle hlook
      rw [show s.handles v.handle = some obj from ho] at hgone
      cases hgone
    · obtain rfl : base = v.base := by simpa using hptr
      rw [hlook, Option.some.injEq] at hlook'
      subst hlook'
      obtain rfl : obj = obj' := Option.some.inj ((show _ = some obj from ho).symm.trans ho')
      obtain ⟨w, hw, hwp, hwb, -, -, hfind⟩ := hI.view_of_lookup hlook
      obtain rfl := hI.distinct w hw v hv (hwp.trans hvp.symm) hwb
      have := hS'.exact ⟨w, obj.ptr, (s.fmData obj).mappedSize⟩ (by rw [hU.unmapped, hfind]; rfl)
      exact this
  | _ => trivial

end Inv

/-- **A run is sound in all its states if and only if its steps are orderly**, with any number of
processes, mappings, handles and views. -/
theorem sound_iff_remembered (acts : List (Act π ν)) :
    (lts π ν).AllStates Sound init acts ↔ (lts π ν).AllSteps Orderly init acts :=
  LTS.allStates_iff_allSteps (fun _ hI => hI.sound) (fun _ _ _ hI hG hn => hI.next hG hn)
    (fun _ _ _ hI hn hS' => hI.orderly_of_sound hn hS') inv_init

/-- Two views of one object, and the first of them is unmapped. -/
def twoViews : List (Act Unit Unit) :=
  [.create () () 0 8192, .map 0 0 0 4096 (some 16), .map 0 0 4096 4096 (some 32),
    .unmap () (.page 16)]

/-- The second one is gone instead. -/
theorem wrong_view_unmapped : ∃ s, (lts Unit Unit).run init twoViews = some s ∧
    s.mem () 16 = some (.view 16) ∧ s.mem () 32 = none ∧
    s.views = [⟨(), 32, 4096, 0⟩] ∧ ¬ Sound s := by
  have hrun : ((lts Unit Unit).run init twoViews).map
      (fun s => (s.mem () 16, s.mem () 32, s.views)) =
        some (some (.view 16), none, [⟨(), 32, 4096, 0⟩]) := by decide +kernel
  obtain ⟨s, hs, heq⟩ := Option.map_eq_some_iff.1 hrun
  simp only [Prod.mk.injEq] at heq
  obtain ⟨hfirst, hsecond, hviews⟩ := heq
  refine ⟨s, hs, hfirst, hsecond, hviews, fun h => ?_⟩
  have := h.kept ⟨(), 32, 4096, 0⟩ (by simp [hviews]) 32 ⟨le_rfl, by decide⟩
  rw [hsecond] at this
  cases this

end Mapping

end Swinx
