import Mathlib.Data.List.DropRight
import Mathlib.Data.List.Induction
import Mathlib.Tactic.SplitIfs

/-!
# Path helpers

`PathAppend`, `PathRemoveFileSpec` and `PathRenameExtension` work in place on a string of bytes (the
`A` form) or of wide characters (the `W` form).  The two forms are copies of each other, so they are
one function of the alphabet here, which has two separators, the colon and the dot.

What a call does is its result, the string up to the new `NUL`, and the places that it writes.

* `pathRemoveFileSpec_none`, `pathRemoveFileSpec_some` — what the scan for a separator finds.
* `removeFileSpec_append_iff` — when an appended component is removed again.
* `unchanged_iff` — when a call that returns `FALSE` leaves the string as it was.
* `pathAppend_inside` and the like : no place from `MAX_PATH` on is written.
-/

namespace Swinx

namespace Shlwapi

def MAX_PATH : ℕ := 1000

/-- **An alphabet**: the units that the helpers ask for. -/
structure Alphabet (α : Type) where
  isSep : α → Bool
  isColon : α → Bool
  isDot : α → Bool
  backslash : α
  isSep_backslash : isSep backslash = true
  isColon_of_isSep : ∀ {u}, isSep u = true → isColon u = false

/-- What a call does. -/
structure Edit (α : Type) where
  ret : Bool
  text : List α
  /-- The places that are written. -/
  writes : List ℕ
  deriving DecidableEq, Repr

variable {α : Type} (A : Alphabet α)

/-- `bAddSep`: neither of the sides has a separator where they meet. -/
def addSep (path more : List α) : Bool :=
  match path.getLast?, more.head? with
  | some u, some v => !A.isSep u && !A.isSep v
  | _, _ => false

/-- The separator that is put in. -/
def joint (path more : List α) : List α := if addSep A path more then [A.backslash] else []

/-- `PathAppend`; a path that becomes too long is emptied. -/
def pathAppend (path more : List α) : Edit α :=
  if path.length + (joint A path more).length + more.length ≥ MAX_PATH then
    { ret := false
      text := []
      writes := [0] }
  else
    { ret := true
      text := path ++ joint A path more ++ more
      writes := List.range' path.length ((joint A path more).length + more.length + 1) }

/-- The loop that goes back from the end to a separator: its place among the first `n` units. -/
def scanBack (text : List α) : ℕ → Option ℕ
  | 0 => none
  | n + 1 => if text[n]?.any A.isSep then some n else scanBack text n

/-- `PathRemoveFileSpec`: trailing separators are cut off before a separator is looked for. -/
def pathRemoveFileSpec (path : List α) : Edit α :=
  if path = [] then
    { ret := false
      text := path
      writes := [] }
  else
    let text := path.rdropWhile A.isSep
    let cut := List.range' text.length (path.length - text.length)
    match scanBack A text text.length with
    | none =>
      { ret := false
        text := text
        writes := cut }
    | some p =>
      if p = 0 then
        { ret := true
          text := []
          writes := cut ++ [0] }
      else if p = 2 ∧ text[1]?.any A.isColon then
        -- `p[1]` is cleared, so the separator of a drive stays.
        { ret := true
          text := text.take (p + 1)
          writes := cut ++ [p + 1] }
      else
        { ret := true
          text := text.take p
          writes := cut ++ [p] }

/-- `path_last_component`, from the place `i` on with the last component at `last`. -/
def lastComponent : ℕ → ℕ → List α → ℕ
  | _, last, [] => last
  | i, last, u :: s => lastComponent (i + 1) (if A.isSep u then i + 1 else last) s

/-- `pDot`: the first dot of the last component, or the end. -/
def dotAt (path : List α) : ℕ :=
  let last := lastComponent A 0 0 path
  match (path.drop last).findIdx? A.isDot with
  | some i => last + i
  | none => path.length

/-- `PathRenameExtension` -/
def pathRenameExtension (path ext : List α) : Edit α :=
  if dotAt A path + ext.length ≥ MAX_PATH then
    { ret := false
      text := path
      writes := [] }
  else
    { ret := true
      text := path.take (dotAt A path) ++ ext
      writes := List.range' (dotAt A path) (ext.length + 1) }

/-- **A path without its trailing separators**; a drive root keeps one. -/
def trimmed (path : List α) : List α :=
  let text := path.rdropWhile A.isSep
  if text.length = 2 ∧ text[1]?.any A.isColon then text ++ (path.drop 2).take 1 else text

section

variable {A}

/-- No unit is a separator. -/
def NoSep (A : Alphabet α) (us : List α) : Prop := ∀ u ∈ us, A.isSep u = false

theorem scanBack_append {u v : List α} (hv : NoSep A v) :
    scanBack A (u ++ v) (u.length + v.length) = scanBack A (u ++ v) u.length := by
  suffices h : ∀ n ≤ v.length,
      scanBack A (u ++ v) (u.length + n) = scanBack A (u ++ v) u.length from h _ le_rfl
  intro n
  induction n with
  | zero => exact fun _ => rfl
  | succ n ih =>
    intro hn
    have hunit : ((u ++ v)[u.length + n]?).any A.isSep = false := by
      rw [List.getElem?_append_right (Nat.le_add_right _ _), Nat.add_sub_cancel_left,
        List.getElem?_eq_getElem hn, Option.any_some]
      exact hv _ (List.getElem_mem _)
    rw [← Nat.add_assoc, scanBack, hunit]
    exact ih (by omega)

theorem scanBack_none {v : List α} (hv : NoSep A v) : scanBack A v v.length = none := by
  have h := scanBack_append (u := []) hv
  rwa [List.nil_append, List.length_nil, Nat.zero_add] at h

theorem scanBack_some {u v : List α} {s : α} (hs : A.isSep s = true) (hv : NoSep A v) :
    scanBack A (u ++ s :: v) (u ++ s :: v).length = some u.length := by
  have h := scanBack_append (u := u ++ [s]) hv
  rw [List.append_assoc, List.singleton_append, List.length_append, List.length_singleton] at h
  rw [List.length_append, List.length_cons, show u.length + (v.length + 1) =
    u.length + 1 + v.length by omega, h, scanBack, List.getElem?_append_right le_rfl, Nat.sub_self,
    List.getElem?_cons_zero, Option.any_some, hs]
  rfl

theorem noSep_or_last (us : List α) :
    NoSep A us ∨ ∃ u s v, A.isSep s = true ∧ NoSep A v ∧ us = u ++ s :: v := by
  induction us using List.reverseRecOn with
  | nil => exact .inl fun u hu => absurd hu List.not_mem_nil
  | append_singleton us x ih =>
    cases hx : A.isSep x with
    | true => exact .inr ⟨us, x, [], hx, fun u hu => absurd hu List.not_mem_nil, rfl⟩
    | false =>
      have hsnoc : ∀ {v}, NoSep A v → NoSep A (v ++ [x]) := by
        intro v hv u hu
        rcases List.mem_append.1 hu with hu | hu
        · exact hv u hu
        · exact List.mem_singleton.1 hu ▸ hx
      rcases ih with h | ⟨u, s, v, hs, hv, rfl⟩
      · exact .inl (hsnoc h)
      · refine .inr ⟨u, s, v ++ [x], hs, hsnoc hv, ?_⟩
        rw [List.append_assoc, List.cons_append]

theorem last_unique {u u' v v' : List α} {s s' : α} (hs : A.isSep s = true) (hv : NoSep A v)
    (hs' : A.isSep s' = true) (hv' : NoSep A v') (h : u ++ s :: v = u' ++ s' :: v') : u = u' := by
  have hlen : u.length = u'.length := by
    have h₁ := scanBack_some (u := u) hs hv
    rw [h, scanBack_some hs' hv'] at h₁
    exact (Option.some.inj h₁).symm
  exact (List.append_inj h hlen).1

theorem trailing_cases (us : List α) :
    NoSep A (us.rdropWhile A.isSep) ∨ ∃ u s v, A.isSep s = true ∧ NoSep A v ∧ v ≠ [] ∧
      us.rdropWhile A.isSep = u ++ s :: v := by
  rcases noSep_or_last (A := A) (us.rdropWhile A.isSep) with h | ⟨u, s, v, hs, hv, heq⟩
  · exact .inl h
  · refine .inr ⟨u, s, v, hs, hv, ?_, heq⟩
    rintro rfl
    have hne : us.rdropWhile A.isSep ≠ [] := by
      rw [heq]
      simp
    have hlast := List.rdropWhile_last_not A.isSep us hne
    simp only [heq, List.getLast_append_singleton] at hlast
    exact hlast hs

/-- Nothing is cut off from units that do not end with a separator. -/
theorem rdropWhile_append {u v : List α} (hv : NoSep A v) (hne : v ≠ []) :
    (u ++ v).rdropWhile A.isSep = u ++ v := by
  obtain ⟨w, x, rfl⟩ := List.eq_nil_or_concat v |>.resolve_left hne
  rw [List.concat_eq_append, ← List.append_assoc]
  refine List.rdropWhile_concat_neg A.isSep _ x ?_
  rw [hv x (by simp)]
  exact Bool.false_ne_true

/-- Without a separator the call fails, and the trailing ones are gone. -/
theorem pathRemoveFileSpec_none {path : List α} (h : NoSep A (path.rdropWhile A.isSep)) :
    (pathRemoveFileSpec A path).ret = false ∧
      (pathRemoveFileSpec A path).text = path.rdropWhile A.isSep := by
  unfold pathRemoveFileSpec
  split_ifs with hnil
  · rw [hnil, List.rdropWhile_nil]
    exact ⟨rfl, rfl⟩
  · simp only [scanBack_none h]
    exact ⟨trivial, trivial⟩

/-- The path of the directory that `PathRemoveFileSpec` leaves of the units before the last
separator `s`. -/
def directory (A : Alphabet α) (u : List α) (s : α) : List α :=
  if u.length = 2 ∧ u[1]?.any A.isColon then u ++ [s] else u

theorem pathRemoveFileSpec_some {path u v : List α} {s : α} (hs : A.isSep s = true)
    (hv : NoSep A v) (h : path.rdropWhile A.isSep = u ++ s :: v) :
    (pathRemoveFileSpec A path).ret = true ∧
      (pathRemoveFileSpec A path).text = directory A u s := by
  have hne : path ≠ [] := by
    rintro rfl
    rw [List.rdropWhile_nil] at h
    exact absurd h.symm (by simp)
  unfold pathRemoveFileSpec directory
  rw [if_neg hne]
  simp only [h, scanBack_some hs hv]
  by_cases hzero : u.length = 0
  · rw [if_pos hzero, if_neg (fun hd => by omega), List.length_eq_zero_iff.1 hzero]
    exact ⟨rfl, rfl⟩
  · rw [if_neg hzero]
    have hget : u.length = 2 → (u ++ s :: v)[1]? = u[1]? := fun htwo =>
      List.getElem?_append_left (by omega)
    by_cases hdrive : u.length = 2 ∧ u[1]?.any A.isColon = true
    · rw [if_pos hdrive, if_pos ⟨hdrive.1, by rw [hget hdrive.1]; exact hdrive.2⟩]
      refine ⟨rfl, ?_⟩
      rw [List.take_append, List.take_of_length_le (Nat.le_succ _), Nat.add_sub_cancel_left]
      rfl
    · rw [if_neg hdrive, if_neg (fun hd => hdrive ⟨hd.1, by rw [← hget hd.1]; exact hd.2⟩)]
      exact ⟨rfl, List.take_left⟩

/-! ### The extension -/

/-- Nothing is before the last component, or a separator is. -/
def Before (A : Alphabet α) (u : List α) : Prop := u = [] ∨ ∃ w s, A.isSep s = true ∧ u = w ++ [s]

theorem lastComponent_append {u v : List α} (hv : NoSep A v) (i last : ℕ) :
    lastComponent A i last (u ++ v) = lastComponent A i last u := by
  induction u generalizing i last with
  | nil =>
    induction v generalizing i with
    | nil => rfl
    | cons x v ih =>
      have hstep : lastComponent A i last (x :: v) = lastComponent A (i + 1) last v := by
        rw [lastComponent, hv x List.mem_cons_self, if_neg Bool.false_ne_true]
      exact hstep.trans (ih (fun y hy => hv y (List.mem_cons_of_mem x hy)) (i + 1))
  | cons x u ih =>
    rw [List.cons_append, lastComponent, lastComponent]
    exact ih (i + 1) _

theorem lastComponent_sep {s : α} (hs : A.isSep s = true) (w : List α) (i last : ℕ) :
    lastComponent A i last (w ++ [s]) = i + w.length + 1 := by
  induction w generalizing i last with
  | nil =>
    rw [List.nil_append, lastComponent, hs, if_pos rfl, lastComponent]
    rfl
  | cons x w ih =>
    rw [List.cons_append, lastComponent, ih, List.length_cons]
    omega

theorem lastComponent_eq {u v : List α} (hu : Before A u) (hv : NoSep A v) :
    lastComponent A 0 0 (u ++ v) = u.length := by
  rw [lastComponent_append hv]
  rcases hu with rfl | ⟨w, s, hs, rfl⟩
  · rfl
  · rw [lastComponent_sep hs, List.length_append, List.length_singleton]
    omega

theorem dotAt_none {u v : List α} (hu : Before A u) (hv : NoSep A v)
    (hdot : ∀ x ∈ v, A.isDot x = false) : dotAt A (u ++ v) = (u ++ v).length := by
  rw [dotAt, lastComponent_eq hu hv, List.drop_left, List.findIdx?_eq_none_iff.2 hdot]

theorem dotAt_some {u a b : List α} {d : α} (hu : Before A u) (hv : NoSep A (a ++ d :: b))
    (ha : ∀ x ∈ a, A.isDot x = false) (hd : A.isDot d = true) :
    dotAt A (u ++ (a ++ d :: b)) = (u ++ a).length := by
  have hfind : (a ++ d :: b).findIdx? A.isDot = some a.length := by
    rw [List.findIdx?_append, List.findIdx?_eq_none_iff.2 ha, List.findIdx?_cons, hd, if_pos rfl]
    simp
  rw [dotAt, lastComponent_eq hu hv, List.drop_left, hfind]
  exact List.length_append.symm

/-- A path is what is before its last component, and that has no dot or a first one. -/
theorem component_cases (path : List α) :
    ∃ u v, Before A u ∧ NoSep A v ∧ path = u ++ v ∧
      ((∀ x ∈ v, A.isDot x = false) ∨
        ∃ a d b, v = a ++ d :: b ∧ (∀ x ∈ a, A.isDot x = false) ∧ A.isDot d = true) := by
  have hdots : ∀ v : List α, (∀ x ∈ v, A.isDot x = false) ∨
      ∃ a d b, v = a ++ d :: b ∧ (∀ x ∈ a, A.isDot x = false) ∧ A.isDot d = true := by
    intro v
    induction v with
    | nil => exact .inl fun x hx => absurd hx List.not_mem_nil
    | cons y v ih =>
      cases hy : A.isDot y with
      | true => exact .inr ⟨[], y, v, rfl, fun x hx => absurd hx List.not_mem_nil, hy⟩
      | false =>
        rcases ih with h | ⟨a, d, b, rfl, ha, hd⟩
        · exact .inl (List.forall_mem_cons.2 ⟨hy, h⟩)
        · exact .inr ⟨y :: a, d, b, rfl, List.forall_mem_cons.2 ⟨hy, ha⟩, hd⟩
  rcases noSep_or_last (A := A) path with h | ⟨u, s, v, hs, hv, rfl⟩
  · exact ⟨[], path, .inl rfl, h, rfl, hdots path⟩
  · exact ⟨u ++ [s], v, .inr ⟨u, s, hs, rfl⟩, hv, by simp, hdots v⟩

/-! ### A component is appended and removed -/

/-- The path is not empty, is not a drive without a separator, and has at most one trailing
separator, or two behind a drive. -/
def Restored (A : Alphabet α) (path : List α) : Prop :=
  let text := path.rdropWhile A.isSep
  let drive := text.length = 2 ∧ text[1]?.any A.isColon
  path ≠ [] ∧ (drive → path.length ≠ 2) ∧
    (path.length ≤ text.length + 1 ∨ drive ∧ path.length = 4)

theorem noSep_last {us : List α} (h : us.getLast?.any A.isSep = false) :
    us.rdropWhile A.isSep = us := by
  rw [List.rdropWhile_eq_self_iff]
  intro hne
  rw [List.getLast?_eq_getLast_of_ne_nil hne, Option.any_some] at h
  rw [h]
  exact Bool.false_ne_true

theorem joint_sep {w more : List α} {s : α} (hs : A.isSep s = true) :
    joint A (w ++ [s]) more = [] := by
  rw [joint, addSep, List.getLast?_concat]
  cases more.head? <;> simp [hs]

theorem joint_unit {w more : List α} {x : α} (hx : A.isSep x = false) (hmore : NoSep A more)
    (hne : more ≠ []) : joint A (w ++ [x]) more = [A.backslash] := by
  obtain ⟨y, rest, rfl⟩ := List.exists_cons_of_ne_nil hne
  rw [joint, addSep, List.getLast?_concat, List.head?_cons]
  simp [hx, hmore y List.mem_cons_self]

/-- **An appended component is removed again** if and only if the path is one that is restored. -/
theorem removeFileSpec_append_iff {path more : List α} (hmore : NoSep A more) (hne : more ≠ [])
    (hlen : path.length + (joint A path more).length + more.length < MAX_PATH) :
    (pathRemoveFileSpec A (pathAppend A path more).text).text = trimmed A path ↔
      Restored A path := by
  have htext : (pathAppend A path more).text = path ++ joint A path more ++ more := by
    rw [pathAppend, if_neg (not_le.2 hlen)]
  rw [htext]
  rcases List.eq_nil_or_concat path with rfl | ⟨w, x, rfl⟩
  · -- Nothing is before the component, so it stays.
    have hjoint : joint A [] more = [] := rfl
    have hkept : more.rdropWhile A.isSep = more := rdropWhile_append (u := []) hmore hne
    have hcall : (pathRemoveFileSpec A more).text = more.rdropWhile A.isSep :=
      (pathRemoveFileSpec_none (by rwa [hkept])).2
    rw [hjoint, List.nil_append, List.nil_append, hcall, hkept]
    exact iff_of_false hne fun h => h.1 rfl
  rw [List.concat_eq_append] at hlen ⊢
  cases hx : A.isSep x with
  | false =>
    -- The separator that is put in is the last one.
    rw [joint_unit hx hmore hne, List.append_assoc, List.singleton_append]
    have hcut : (w ++ [x]).rdropWhile A.isSep = w ++ [x] :=
      List.rdropWhile_concat_neg A.isSep w x (by rw [hx]; exact Bool.false_ne_true)
    have hkept : (w ++ [x] ++ A.backslash :: more).rdropWhile A.isSep =
        w ++ [x] ++ A.backslash :: more := by
      have := rdropWhile_append (u := w ++ [x] ++ [A.backslash]) hmore hne
      rwa [List.append_assoc, List.singleton_append] at this
    rw [(pathRemoveFileSpec_some A.isSep_backslash hmore hkept).2]
    unfold directory trimmed Restored
    rw [hcut]
    by_cases hdrive : (w ++ [x]).length = 2 ∧ (w ++ [x])[1]?.any A.isColon = true
    · rw [if_pos hdrive, if_pos hdrive, List.drop_of_length_le hdrive.1.le]
      exact iff_of_false (by simp) fun h => h.2.1 hdrive hdrive.1
    · rw [if_neg hdrive, if_neg hdrive]
      exact iff_of_true rfl ⟨by simp, fun h => absurd h hdrive, .inl (Nat.le_succ _)⟩
  | true =>
    rw [joint_sep hx, List.append_nil, List.append_assoc, List.singleton_append]
    have hkept : (w ++ x :: more).rdropWhile A.isSep = w ++ x :: more := by
      have := rdropWhile_append (u := w ++ [x]) hmore hne
      rwa [List.append_assoc, List.singleton_append] at this
    have hcut : (w ++ [x]).rdropWhile A.isSep = w.rdropWhile A.isSep :=
      List.rdropWhile_concat_pos A.isSep w x hx
    rw [(pathRemoveFileSpec_some hx hmore hkept).2]
    unfold directory trimmed Restored
    rw [hcut, List.length_append, List.length_singleton]
    obtain ⟨r, hr⟩ := List.rdropWhile_prefix A.isSep w
    rcases eq_or_ne r [] with rfl | hrne
    · -- There is one trailing separator.
      rw [List.append_nil] at hr
      rw [hr]
      refine iff_of_true ?_ ⟨by simp, fun h => by omega, .inl le_rfl⟩
      by_cases hdrive : w.length = 2 ∧ w[1]?.any A.isColon = true
      · rw [if_pos hdrive, if_pos hdrive, List.drop_left' hdrive.1]
        rfl
      · rw [if_neg hdrive, if_neg hdrive]
    · have hpos := List.length_pos_iff.2 hrne
      have hwlen : w.length = (w.rdropWhile A.isSep).length + r.length := by
        rw [← List.length_append, hr]
      have hdrive : ¬ (w.length = 2 ∧ w[1]?.any A.isColon = true) := by
        rintro ⟨htwo, hcolon⟩
        obtain ⟨a, b, rfl⟩ := List.length_eq_two.1 htwo
        have hb : A.isSep b = false := by
          by_contra hsep
          have := A.isColon_of_isSep (by simpa using hsep)
          rw [List.getElem?_cons_succ, List.getElem?_cons_zero, Option.any_some, this] at hcolon
          cases hcolon
        have hself : [a, b].rdropWhile A.isSep = [a, b] := noSep_last hb
        rw [hself] at hwlen
        omega
      rw [if_neg hdrive]
      by_cases hq : (w.rdropWhile A.isSep).length = 2 ∧
          (w.rdropWhile A.isSep)[1]?.any A.isColon = true
      · have hdrop : (w ++ [x]).drop 2 = r ++ [x] := by
          rw [← hr, List.append_assoc, List.drop_left' hq.1]
        rw [if_pos hq, hdrop, List.take_append_of_le_length hpos]
        have hlenIff : w = w.rdropWhile A.isSep ++ r.take 1 ↔ r.length = 1 := by
          constructor
          · intro h
            have := congrArg List.length h
            rw [hwlen, List.length_append, List.length_take] at this
            omega
          · intro h
            rw [List.take_of_length_le h.le, hr]
        rw [hlenIff]
        constructor
        · exact fun h => ⟨by simp, fun _ => by omega, .inr ⟨hq, by omega⟩⟩
        · rintro ⟨-, -, h | ⟨-, h⟩⟩ <;> omega
      · rw [if_neg hq]
        refine iff_of_false (fun h => ?_) ?_
        · have := congrArg List.length h
          omega
        · rintro ⟨-, -, h | ⟨h, -⟩⟩
          · omega
          · exact hq h

/-! ### Calls that fail, and places -/

/-- **A call that returns `FALSE` leaves the string** if and only if the path has no trailing
separators, or another one before them. -/
theorem unchanged_iff (path : List α) :
    ((pathRemoveFileSpec A path).ret = false → (pathRemoveFileSpec A path).text = path) ↔
      path.rdropWhile A.isSep = path ∨ ¬ NoSep A (path.rdropWhile A.isSep) := by
  by_cases h : NoSep A (path.rdropWhile A.isSep)
  · obtain ⟨hret, htext⟩ := pathRemoveFileSpec_none h
    simp [hret, htext, h]
  · obtain ⟨u, s, v, hs, hv, -, heq⟩ := trailing_cases path |>.resolve_left h
    obtain ⟨hret, -⟩ := pathRemoveFileSpec_some hs hv heq
    simp [hret, h]

theorem pathRenameExtension_unchanged (path ext : List α)
    (h : (pathRenameExtension A path ext).ret = false) :
    (pathRenameExtension A path ext).text = path := by
  unfold pathRenameExtension at h ⊢
  split_ifs at h ⊢
  rfl

theorem pathAppend_inside (path more : List α) :
    ∀ i ∈ (pathAppend A path more).writes, i < MAX_PATH := by
  unfold pathAppend
  split_ifs with hlong
  · exact fun i hi => List.mem_singleton.1 hi ▸ by decide
  · intro i hi
    obtain ⟨-, hlt⟩ := List.mem_range'_1.1 hi
    omega

theorem pathRenameExtension_inside (path ext : List α) :
    ∀ i ∈ (pathRenameExtension A path ext).writes, i < MAX_PATH := by
  unfold pathRenameExtension
  split_ifs with hlong
  · exact fun i hi => absurd hi List.not_mem_nil
  · intro i hi
    obtain ⟨-, hlt⟩ := List.mem_range'_1.1 hi
    omega

theorem scanBack_lt {text : List α} {n i : ℕ} (h : scanBack A text n = some i) :
    i < n ∧ text[i]?.any A.isSep = true := by
  induction n with
  | zero => cases h
  | succ n ih =>
    rw [scanBack] at h
    split_ifs at h with hsep
    · obtain rfl := Option.some.inj h
      exact ⟨Nat.lt_succ_self n, hsep⟩
    · obtain ⟨hlt, hunit⟩ := ih h
      exact ⟨hlt.trans (Nat.lt_succ_self n), hunit⟩

theorem pathRemoveFileSpec_inside {path : List α} (hlen : path.length < MAX_PATH) :
    ∀ i ∈ (pathRemoveFileSpec A path).writes, i < MAX_PATH := by
  have hle : (path.rdropWhile A.isSep).length ≤ path.length :=
    (List.rdropWhile_prefix A.isSep path).length_le
  have hcut : ∀ i ∈ List.range' (path.rdropWhile A.isSep).length
      (path.length - (path.rdropWhile A.isSep).length), i < MAX_PATH := by
    intro i hi
    obtain ⟨-, hlt⟩ := List.mem_range'_1.1 hi
    omega
  have hone : ∀ k < MAX_PATH, ∀ i ∈ List.range' (path.rdropWhile A.isSep).length
      (path.length - (path.rdropWhile A.isSep).length) ++ [k], i < MAX_PATH := by
    intro k hk i hi
    rcases List.mem_append.1 hi with hi | hi
    · exact hcut i hi
    · exact List.mem_singleton.1 hi ▸ hk
  unfold pathRemoveFileSpec
  split_ifs with hnil
  · exact fun i hi => absurd hi List.not_mem_nil
  · cases hscan : scanBack A (path.rdropWhile A.isSep) (path.rdropWhile A.isSep).length with
    | none =>
      simp only [hscan]
      exact hcut
    | some p =>
      obtain ⟨hp, -⟩ := scanBack_lt hscan
      simp only [hscan]
      split_ifs
      · exact hone 0 (by decide)
      · exact hone (p + 1) (by omega)
      · exact hone p (by omega)

end

end Shlwapi

end Swinx
