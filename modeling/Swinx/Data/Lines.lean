import Mathlib.Data.List.DropRight
import Mathlib.Data.List.TakeWhile

/-!
# Texts of trimmed lines

A text is read line by line: a line goes up to the next run of end marks, and what counts are the
lines without the white space around them, the blank ones left out.  End marks are white space.

* `contents_line` — a line, a run of end marks and a rest are read one after the other.
* `tight_of_mem_contents`, `mem_of_mem_contents` — what is read is trimmed, and is part of a line.
* `CutAt.contents` — what is read of a text has every property that both sides of a cut have.
-/

namespace Swinx

namespace Lines

variable {α : Type*} (eol space : α → Bool)

theorem length_behind_lt (c : α) (s : List α) :
    (((c :: s).dropWhile fun c => ! eol c).dropWhile eol).length < (c :: s).length := by
  by_cases hc : eol c
  · simp only [List.dropWhile, hc, Bool.not_true, List.length_cons]
    exact Nat.lt_succ_of_le (List.length_dropWhile_le _ _)
  · simp only [List.dropWhile, hc, Bool.not_false, List.length_cons]
    exact Nat.lt_succ_of_le ((List.length_dropWhile_le _ _).trans (List.length_dropWhile_le _ _))

/-- The lines of a text, each with the run of end marks behind it. -/
def lines (text : List α) : List (List α) :=
  match text with
  | [] => []
  | c :: rest =>
    let tail := (c :: rest).dropWhile fun c => ! eol c
    ((c :: rest).takeWhile (fun c => ! eol c) ++ tail.takeWhile eol) :: lines (tail.dropWhile eol)
termination_by text.length
decreasing_by exact length_behind_lt eol c rest

/-- A text without the white space at both ends. -/
def trim (s : List α) : List α := (s.dropWhile space).rdropWhile space

/-- The trimmed lines that are not blank. -/
def contents (text : List α) : List (List α) :=
  ((lines eol text).map (trim space)).filter fun s => ! s.isEmpty

/-- Neither end of a text is white space. -/
structure Tight (s : List α) : Prop where
  left : s.dropWhile space = s
  right : s.rdropWhile space = s

variable {eol space} {s t rest e : List α} {c : α}

/-! ### Trimming -/

theorem trim_tight (h : Tight space s) : trim space s = s := by
  rw [trim, h.left, h.right]

theorem mem_of_mem_trim (h : c ∈ trim space s) : c ∈ s :=
  (List.dropWhile_sublist _).subset ((List.rdropWhile_prefix _ _).subset h)

/-- A text begins with no white space when its first element is none. -/
theorem dropWhile_eq_self_of_head {p : α → Bool} (h : ∀ a ∈ s.head?, p a = false) :
    s.dropWhile p = s := by
  cases s with
  | nil => rfl
  | cons a s =>
    refine List.dropWhile_cons_of_neg ?_
    rw [h a rfl]
    exact Bool.false_ne_true

theorem head_of_dropWhile_eq_self {p : α → Bool} (h : s.dropWhile p = s) :
    ∀ a ∈ s.head?, p a = false := by
  intro a ha
  cases s with
  | nil => cases ha
  | cons b s =>
    obtain rfl : b = a := Option.some.inj ha
    have hself := List.dropWhile_eq_self_iff.1 h (by simp)
    exact Bool.eq_false_iff.2 hself

theorem rdropWhile_concat_of_not {p : α → Bool} (h : p c = false) :
    (s ++ [c]).rdropWhile p = s ++ [c] :=
  List.rdropWhile_concat_neg _ _ _ (by rw [h]; exact Bool.false_ne_true)

theorem rdropWhile_append_of_all {p : α → Bool} (h : ∀ a ∈ t, p a = true) :
    (s ++ t).rdropWhile p = s.rdropWhile p := by
  induction t using List.reverseRecOn with
  | nil => rw [List.append_nil]
  | append_singleton t a ih =>
    rw [← List.append_assoc, List.rdropWhile_concat_pos _ _ _ (h a (by simp))]
    exact ih fun b hb => h b (List.mem_append_left _ hb)

/-- A text that is trimmed at its end keeps what is put in front of it. -/
theorem rdropWhile_append_of_ne_nil {p : α → Bool} (h : t.rdropWhile p = t) (ht : t ≠ []) :
    (s ++ t).rdropWhile p = s ++ t := by
  rw [List.rdropWhile_eq_self_iff] at h ⊢
  intro hst
  rw [List.getLast_append_of_ne_nil _ ht]
  exact h ht

theorem tight_trim (s : List α) : Tight space (trim space s) := by
  refine ⟨?_, List.rdropWhile_idempotent _ _⟩
  refine dropWhile_eq_self_of_head ?_
  intro a ha
  -- the first element that is left is the first one behind the white space
  obtain ⟨u, hu⟩ := List.rdropWhile_prefix space (s.dropWhile space)
  have hne : trim space s ≠ [] := by
    intro hnil
    rw [hnil] at ha
    cases ha
  have hhead : a ∈ (s.dropWhile space).head? := by
    rw [← hu]
    change a ∈ (trim space s ++ u).head?
    rw [List.head?_append_of_ne_nil _ hne]
    exact ha
  exact head_of_dropWhile_eq_self (List.dropWhile_idempotent _ _) a hhead

theorem trim_eq_nil (h : ∀ a ∈ s, space a = true) : trim space s = [] := by
  rw [trim, List.dropWhile_eq_nil_iff.2 h]
  rfl

theorem trim_append_of_all (h : ∀ a ∈ t, space a = true) : trim space (s ++ t) = trim space s := by
  by_cases hs : ∀ a ∈ s, space a = true
  · rw [trim_eq_nil hs, trim_eq_nil]
    intro a ha
    exact (List.mem_append.1 ha).elim (hs a) (h a)
  · have hdrop : s.dropWhile space ≠ [] := fun hnil => hs (List.dropWhile_eq_nil_iff.1 hnil)
    rw [trim, trim, List.dropWhile_append, if_neg (by simpa using hdrop)]
    exact rdropWhile_append_of_all h

/-! ### Lines -/

theorem lines_nil : lines eol ([] : List α) = [] := by
  rw [lines]

theorem lines_eq (h : s ≠ []) : lines eol s =
    (s.takeWhile (fun c => ! eol c) ++ (s.dropWhile fun c => ! eol c).takeWhile eol) ::
      lines eol ((s.dropWhile fun c => ! eol c).dropWhile eol) := by
  cases s with
  | nil => exact absurd rfl h
  | cons c s => rw [lines]

theorem exists_of_mem_lines {line : List α} (h : line ∈ lines eol s) :
    ∃ body e, line = body ++ e ∧ (∀ a ∈ body, eol a = false ∧ a ∈ s) ∧ ∀ a ∈ e, eol a = true := by
  induction hn : s.length using Nat.strong_induction_on generalizing s with
  | _ n ih =>
    by_cases hs : s = []
    · rw [hs, lines_nil] at h
      cases h
    rw [lines_eq hs] at h
    rcases List.mem_cons.1 h with rfl | hrest
    · refine ⟨_, _, rfl, ?_, fun a ha => List.mem_takeWhile_imp ha⟩
      intro a ha
      exact ⟨by simpa using List.mem_takeWhile_imp ha, (List.takeWhile_prefix _).subset ha⟩
    · have hlt : ((s.dropWhile fun c => ! eol c).dropWhile eol).length < n := by
        obtain ⟨c, s, rfl⟩ := List.exists_cons_of_ne_nil hs
        subst hn
        exact length_behind_lt eol c s
      obtain ⟨body, e, hline, hbody, he⟩ := ih _ hlt hrest rfl
      refine ⟨body, e, hline, ?_, he⟩
      intro a ha
      exact ⟨(hbody a ha).1, (List.dropWhile_sublist _).subset
        ((List.dropWhile_sublist _).subset (hbody a ha).2)⟩

/-! ### Contents -/

theorem contents_nil : contents eol space ([] : List α) = [] := by
  rw [contents, lines_nil]
  rfl

/-- **A line that is read is trimmed and not blank.** -/
theorem tight_of_mem_contents (h : t ∈ contents eol space s) : t ≠ [] ∧ Tight space t := by
  obtain ⟨hmem, hne⟩ := List.mem_filter.1 h
  obtain ⟨line, -, rfl⟩ := List.mem_map.1 hmem
  refine ⟨?_, tight_trim _⟩
  intro hnil
  rw [hnil] at hne
  exact absurd hne (by simp)

/-- **It has no end mark, and its elements are elements of the text.** -/
theorem mem_of_mem_contents (hspace : ∀ a, eol a = true → space a = true)
    (h : t ∈ contents eol space s) (hc : c ∈ t) : eol c = false ∧ c ∈ s := by
  obtain ⟨line, hline, rfl⟩ := List.mem_map.1 (List.mem_filter.1 h).1
  obtain ⟨body, e, rfl, hbody, he⟩ := exists_of_mem_lines hline
  rw [trim_append_of_all fun a ha => hspace a (he a ha)] at hc
  exact hbody c (mem_of_mem_trim hc)

theorem contents_dropWhile (hspace : ∀ a, eol a = true → space a = true) (s : List α) :
    contents eol space (s.dropWhile eol) = contents eol space s := by
  cases s with
  | nil => rfl
  | cons c s =>
    by_cases hc : eol c
    · have hbody : (c :: s).takeWhile (fun c => ! eol c) = [] := by simp [hc]
      have htail : (c :: s).dropWhile (fun c => ! eol c) = c :: s := by simp [hc]
      have hblank : trim space ((c :: s).takeWhile eol) = [] :=
        trim_eq_nil fun a ha => hspace a (List.mem_takeWhile_imp ha)
      rw [contents, contents, lines_eq (List.cons_ne_nil c s), hbody, htail, List.nil_append,
        List.map_cons, hblank]
      rfl
    · rw [List.dropWhile_cons_of_neg hc]

/-- **A line, a run of end marks and a rest** are read one after the other. -/
theorem contents_line (hspace : ∀ a, eol a = true → space a = true)
    (hs : ∀ a ∈ s, eol a = false) (he : ∀ a ∈ e, eol a = true) (hne : e ≠ []) :
    contents eol space (s ++ (e ++ rest)) =
      (if trim space s = [] then [] else [trim space s]) ++ contents eol space rest := by
  have hs' : ∀ a ∈ s, (! eol a) = true := fun a ha => by rw [hs a ha, Bool.not_false]
  obtain ⟨m, e', rfl⟩ := List.exists_cons_of_ne_nil hne
  have hm : (! eol m) = false := by rw [he m List.mem_cons_self, Bool.not_true]
  have hbody : (s ++ (m :: e' ++ rest)).takeWhile (fun c => ! eol c) = s := by
    rw [List.takeWhile_append_of_pos hs', List.cons_append,
      List.takeWhile_cons_of_neg (by rw [hm]; exact Bool.false_ne_true), List.append_nil]
  have htail : (s ++ (m :: e' ++ rest)).dropWhile (fun c => ! eol c) = m :: e' ++ rest := by
    rw [List.dropWhile_append_of_pos hs', List.cons_append,
      List.dropWhile_cons_of_neg (by rw [hm]; exact Bool.false_ne_true)]
  have hmarks : (m :: e' ++ rest).takeWhile eol = (m :: e') ++ rest.takeWhile eol :=
    List.takeWhile_append_of_pos he
  have hrest : (m :: e' ++ rest).dropWhile eol = rest.dropWhile eol :=
    List.dropWhile_append_of_pos he
  have hline : trim space (s ++ ((m :: e') ++ rest.takeWhile eol)) = trim space s := by
    refine trim_append_of_all ?_
    intro a ha
    rcases List.mem_append.1 ha with ha | ha
    · exact hspace a (he a ha)
    · exact hspace a (List.mem_takeWhile_imp ha)
  have hfront : s ++ (m :: e' ++ rest) ≠ [] := by simp
  rw [← contents_dropWhile hspace rest]
  rw [contents, lines_eq hfront, hbody, htail, hmarks, hrest, List.map_cons, hline]
  by_cases hnil : trim space s = []
  · rw [if_pos hnil, hnil]
    rfl
  · rw [if_neg hnil, List.filter_cons_of_pos (by simpa using hnil)]
    rfl

/-! ### Cuts -/

/-- **A property of texts that both sides of a cut have**, where a text is cut at a mark. -/
def CutAt (mark : α → Prop) (P : List α → Prop) : Prop :=
  ∀ a x b, mark x → P (a ++ x :: b) → P a ∧ P b

variable {mark : α → Prop} {P : List α → Prop} {q : α → Bool}

theorem CutAt.dropWhile (h : CutAt mark P) (hq : ∀ c, q c = true → mark c) (hs : P s) :
    P (s.dropWhile q) := by
  induction s with
  | nil => exact hs
  | cons c s ih =>
    by_cases hc : q c = true
    · rw [List.dropWhile_cons_of_pos hc]
      exact ih (h [] c s (hq c hc) hs).2
    · rwa [List.dropWhile_cons_of_neg hc]

theorem CutAt.rdropWhile (h : CutAt mark P) (hq : ∀ c, q c = true → mark c) (hs : P s) :
    P (s.rdropWhile q) := by
  induction s using List.reverseRecOn with
  | nil => exact hs
  | append_singleton s c ih =>
    by_cases hc : q c = true
    · rw [List.rdropWhile_concat_pos _ _ _ hc]
      exact ih (h s c [] (hq c hc) hs).1
    · rwa [List.rdropWhile_concat_neg _ _ _ hc]

/-- A text that is cut at its first mark. -/
theorem CutAt.takeWhile (h : CutAt mark P) (hq : ∀ c, q c = false → mark c) (hs : P s) :
    P (s.takeWhile q) ∧ ∀ x t, s.dropWhile q = x :: t → P t := by
  have hsplit := List.takeWhile_append_dropWhile (p := q) (l := s)
  cases hdrop : s.dropWhile q with
  | nil =>
    rw [hdrop, List.append_nil] at hsplit
    rw [hsplit]
    exact ⟨hs, fun x t heq => nomatch heq⟩
  | cons x t =>
    have hx : q x = false := by
      have hhead := List.head?_dropWhile_not q s
      rwa [hdrop] at hhead
    rw [hdrop] at hsplit
    rw [← hsplit] at hs
    obtain ⟨htake, ht⟩ := h _ x t (hq x hx) hs
    refine ⟨htake, fun y u heq => ?_⟩
    obtain ⟨-, rfl⟩ := List.cons.inj heq
    exact ht

/-- A text that is cut at its last mark. -/
theorem CutAt.dropLast_rdropWhile (h : CutAt mark P) (hq : ∀ c, q c = false → mark c)
    (hnil : P []) (hs : P s) : P (s.rdropWhile q).dropLast := by
  by_cases hne : s.rdropWhile q = []
  · rwa [hne]
  · obtain ⟨u, hu⟩ := List.rdropWhile_prefix q s
    have hlast := Bool.eq_false_iff.2 (List.rdropWhile_last_not q s hne)
    rw [← List.dropLast_append_getLast hne, List.append_assoc, List.singleton_append] at hu
    rw [← hu] at hs
    exact (h _ _ u (hq _ hlast) hs).1

/-- **The lines that are read have the property of the text.** -/
theorem CutAt.contents (h : CutAt mark P) (hspace : ∀ a, eol a = true → space a = true)
    (hmark : ∀ a, space a = true → mark a) (hs : P s) (ht : t ∈ contents eol space s) : P t := by
  have hline : ∀ line ∈ lines eol s, P (trim space line) := by
    clear ht
    induction hn : s.length using Nat.strong_induction_on generalizing s with
    | _ n ih =>
      intro line hline
      by_cases hnil : s = []
      · rw [hnil, lines_nil] at hline
        cases hline
      have hq : ∀ c, (! eol c) = false → mark c := fun c hc =>
        hmark c (hspace c (by simpa using hc))
      obtain ⟨hbody, hrest⟩ := h.takeWhile hq hs
      rw [lines_eq hnil] at hline
      rcases List.mem_cons.1 hline with rfl | hline
      · rw [trim_append_of_all fun a ha => hspace a (List.mem_takeWhile_imp ha)]
        exact h.rdropWhile hmark (h.dropWhile hmark hbody)
      · have hlt : ((s.dropWhile fun c => ! eol c).dropWhile eol).length < n := by
          obtain ⟨c, s, rfl⟩ := List.exists_cons_of_ne_nil hnil
          subst hn
          exact length_behind_lt eol c s
        refine ih _ hlt ?_ rfl line hline
        cases hdrop : s.dropWhile fun c => ! eol c with
        | nil =>
          rw [hdrop] at hline
          simp only [List.dropWhile_nil, lines_nil, List.not_mem_nil] at hline
        | cons x u =>
          have hx : (! eol x) = false := by
            have hhead := List.head?_dropWhile_not (fun c => ! eol c) s
            rwa [hdrop] at hhead
          rw [List.dropWhile_cons_of_pos (by simpa using hx)]
          exact h.dropWhile (fun c hc => hmark c (hspace c hc)) (hrest x u hdrop)
  obtain ⟨line, hmem, rfl⟩ := List.mem_map.1 (List.mem_filter.1 ht).1
  exact hline line hmem

end Lines

end Swinx
