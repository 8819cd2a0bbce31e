import Swinx.Data.Components
import Swinx.Shlwapi.Unicode

/-!
# Canonical paths

`PathCanonicalizeW` copies a path unit by unit.  It leaves out a dot with a separator behind it, and
goes back to the separator before when two dots come behind one.  It does not look whether the dots
are all of a component.

The path stands in a memory that goes on behind its terminator: two dots right behind a root may
take the scan over the terminator.

* `canonicalize_straight` — a straight path is resolved.
* `exists_onTheWay` — any other path, or a directory on its way, is not.
-/

namespace Swinx

namespace Shlwapi

namespace Canonicalize

open Components

def slash : ℕ := 0x2F
def colon : ℕ := 0x3A
def dot : ℕ := 0x2E

/-- More places are written before. -/
def after (places : List ℕ) (e : Edit ℕ) : Edit ℕ := { e with writes := places ++ e.writes }

/-- **The loop of `PathCanonicalizeW`**, with what the buffer holds and the memory from `src` on. -/
def scan (dst : List ℕ) : List ℕ → Edit ℕ
  | [] => ⟨true, dst, []⟩
  | u :: src =>
    if u = 0 then ⟨true, dst, []⟩
    else if units.isDot u then
      match src with
      | [] => after [dst.length] (scan (dst ++ [u]) [])
      | v :: src =>
        if units.isSep v then scan dst src
        else if units.isDot v ∧ dst.getLast?.any units.isSep then
          let back := dst.dropLast
          if back = [] then scan [] src
          else
            -- `*dst` is cleared, and `dst` goes back behind a separator.
            let dir := back.rdropWhile fun x => !units.isSep x
            if dir = [] then
              match src with
              | [] => after [back.length, 0] (scan [slash] [])
              | _ :: src => after [back.length, 0] (scan [slash] src)
            else after [back.length] (scan dir src)
        else after [dst.length] (scan (dst ++ [u]) (v :: src))
    else if units.isSep u then after [dst.length] (scan (dst ++ [slash]) src)
    else after [dst.length] (scan (dst ++ [u]) src)

/-- The root in the buffer, and the memory behind it. -/
def copyRoot : List ℕ → List ℕ × List ℕ
  | [] => ([], [])
  | u :: src =>
    if units.isSep u then ([slash], src)
    else if src.head?.any units.isColon then
      if (src.drop 1).head?.any units.isSep then ([u, colon, slash], src.drop 2)
      else ([u, colon], src.drop 1)
    else ([], u :: src)

/-- `Append \ to naked drive specs` -/
def finish (text : List ℕ) : List ℕ :=
  if text.length = 2 ∧ text[1]?.any units.isColon then text ++ [slash] else text

/-- `PathCanonicalizeW` for the path in a memory. -/
def PathCanonicalizeW (path : List ℕ) : Edit ℕ :=
  if path.head?.all (· == 0) then ⟨true, [slash], [0, 0, 1]⟩
  else
    let e := scan (copyRoot path).1 (copyRoot path).2
    { ret := true
      text := finish e.text
      writes := 0 :: List.range (copyRoot path).1.length ++ e.writes ++
        List.range' e.text.length ((finish e.text).length + 1 - e.text.length) }

/-! ### Lexical resolution -/

/-- The path begins with a separator, or with a drive and a separator (or nothing) behind it. -/
def Absolute (p : List ℕ) : Prop :=
  p.head?.any units.isSep = true ∨
    p[1]?.any units.isColon = true ∧ p[2]?.all units.isSep = true

/-- Does the path begin with a drive? -/
def onDrive (p : List ℕ) : Bool := !p.head?.any units.isSep

/-- The root of an absolute path. -/
def root (p : List ℕ) : List ℕ := if onDrive p then p.take 1 ++ [colon, slash] else [slash]

/-- What is behind the root. -/
def behindRoot (p : List ℕ) : List ℕ := p.drop (root p).length

/-- **The path without components of one dot**, and without the component before each of two. -/
def resolved (p : List ℕ) : List ℕ :=
  root p ++
    joined slash (resolve [dot] [dot, dot] [] (Components.components units.isSep (behindRoot p)))

/-- **Components that the scan takes for what they are**, with `k` components kept before: none
begins with two dots or ends with a dot in front of a separator, unless that is all of it.  One dot
is not the last; two dots are not behind a component, or behind one and the last. -/
def Straight (drive : Bool) : ℕ → List (List ℕ) → Prop
  | _, [] => True
  | k, [c] => if c = [dot, dot] then k = 1
      else c ≠ [dot] ∧ ¬[dot, dot] <+: c ∧ ¬(c = [colon] ∧ k = 0 ∧ drive = false)
  | k, c :: d :: cs =>
    if c = [dot] then Straight drive k (d :: cs)
    else if c = [dot, dot] then k = 0 ∧ drive = false ∧ Straight drive 0 (d :: cs)
    else ¬[dot, dot] <+: c ∧ ¬[dot] <:+ c ∧ Straight drive (k + 1) (d :: cs)

instance decidableStraight (drive : Bool) :
    (k : ℕ) → (cs : List (List ℕ)) → Decidable (Straight drive k cs)
  | _, [] => inferInstanceAs (Decidable True)
  | k, [c] => inferInstanceAs (Decidable (if c = [dot, dot] then k = 1
      else c ≠ [dot] ∧ ¬[dot, dot] <+: c ∧ ¬(c = [colon] ∧ k = 0 ∧ drive = false)))
  | k, c :: d :: cs =>
    have := fun k => decidableStraight drive k (d :: cs)
    inferInstanceAs (Decidable (if c = [dot] then Straight drive k (d :: cs)
      else if c = [dot, dot] then k = 0 ∧ drive = false ∧ Straight drive 0 (d :: cs)
      else ¬[dot, dot] <+: c ∧ ¬[dot] <:+ c ∧ Straight drive (k + 1) (d :: cs)))

/-! ### Steps of the scan -/

@[simp] theorem after_text (places : List ℕ) (e : Edit ℕ) : (after places e).text = e.text := rfl

@[simp] theorem after_writes (places : List ℕ) (e : Edit ℕ) :
    (after places e).writes = places ++ e.writes := rfl

theorem isSep_slash : units.isSep slash = true := rfl

theorem isDot_iff {u : ℕ} : units.isDot u = true ↔ u = dot := beq_iff_eq

theorem isColon_iff {u : ℕ} : units.isColon u = true ↔ u = colon := beq_iff_eq

variable {dst src w tail : List ℕ} {u v : ℕ}

@[simp] theorem scan_zero (dst src : List ℕ) : scan dst (0 :: src) = ⟨true, dst, []⟩ := by
  rw [scan.eq_def]
  exact if_pos rfl

theorem scan_sep (h : units.isSep u = true) (dst src : List ℕ) :
    scan dst (u :: src) = after [dst.length] (scan (dst ++ [slash]) src) := by
  have hzero : u ≠ 0 := by
    rintro rfl
    cases h
  have hdot : ¬units.isDot u = true := by
    rw [isDot_iff]
    rintro rfl
    cases h
  rw [scan.eq_def]
  dsimp only
  rw [if_neg hzero, if_neg hdot, if_pos h]

theorem scan_plain (hzero : u ≠ 0) (hsep : units.isSep u = false) (hdot : u ≠ dot)
    (dst src : List ℕ) :
    scan dst (u :: src) = after [dst.length] (scan (dst ++ [u]) src) := by
  rw [scan.eq_def]
  dsimp only
  rw [if_neg hzero, if_neg (isDot_iff.not.2 hdot), if_neg (by rw [hsep]; decide)]

theorem scan_dot_sep (h : units.isSep u = true) (dst src : List ℕ) :
    scan dst (dot :: u :: src) = scan dst src := by
  rw [scan, if_neg (by decide), if_pos (isDot_iff.2 rfl), if_pos h]

theorem scan_dot (hsep : src.head?.any units.isSep = false)
    (hdot : src.head? = some dot → dst.getLast?.any units.isSep = false) :
    scan dst (dot :: src) = after [dst.length] (scan (dst ++ [dot]) src) := by
  rw [scan.eq_def]
  dsimp only
  rw [if_neg (by decide), if_pos (isDot_iff.2 rfl)]
  cases src with
  | nil => rfl
  | cons v src =>
    rw [List.head?_cons, Option.any_some] at hsep
    have hno : ¬(units.isDot v = true ∧ dst.getLast?.any units.isSep = true) := by
      rintro ⟨h, hlast⟩
      rw [hdot (congrArg some (isDot_iff.1 h))] at hlast
      cases hlast
    dsimp only
    rw [if_neg (by rw [hsep]; decide), if_neg hno]

/-- **Two dots behind a separator.** -/
theorem scan_up (h : dst.getLast?.any units.isSep = true) (src : List ℕ) :
    scan dst (dot :: dot :: src) =
      if dst.dropLast = [] then scan [] src
      else if (dst.dropLast.rdropWhile fun x => !units.isSep x) = [] then
        after [dst.dropLast.length, 0] (scan [slash] (src.drop 1))
      else after [dst.dropLast.length]
        (scan (dst.dropLast.rdropWhile fun x => !units.isSep x) src) := by
  rw [scan, if_neg (by decide), if_pos (isDot_iff.2 rfl), if_neg (by decide),
    if_pos ⟨isDot_iff.2 rfl, h⟩]
  dsimp only
  split_ifs with hback hdir
  · rfl
  · cases src <;> rfl
  · rfl

/-- Two dots at the beginning are those of the first component. -/
theorem up_of_append (h : [dot, dot] <+: w ++ tail) (htail : tail.head? ≠ some dot) :
    [dot, dot] <+: w := by
  cases w with
  | nil =>
    obtain ⟨t, rfl⟩ := h
    exact absurd rfl htail
  | cons u w =>
    obtain ⟨rfl, h'⟩ := List.cons_prefix_cons.1 h
    cases w with
    | nil =>
      obtain ⟨t, rfl⟩ := h'
      exact absurd rfl htail
    | cons v w =>
      obtain ⟨rfl, -⟩ := List.cons_prefix_cons.1 h'
      exact ⟨w, rfl⟩

/-- **A component that is copied.** -/
theorem scan_component (hw : Components.NoSep units.isSep w) (hzero : 0 ∉ w)
    (hup : dst.getLast?.any units.isSep = true → ¬[dot, dot] <+: w ++ tail)
    (hend : tail.head?.any units.isSep = true → ¬[dot] <:+ w) :
    (scan dst (w ++ tail)).text = (scan (dst ++ w) tail).text := by
  induction w generalizing dst with
  | nil => rw [List.nil_append, List.append_nil]
  | cons u w ih =>
    have hu : units.isSep u = false := hw u List.mem_cons_self
    have hu0 : u ≠ 0 := fun h => hzero (h ▸ List.mem_cons_self)
    have hstep : scan dst (u :: (w ++ tail)) =
        after [dst.length] (scan (dst ++ [u]) (w ++ tail)) := by
      by_cases hdot : u = dot
      · subst hdot
        refine scan_dot ?_ fun hnext => ?_
        · cases w with
          | nil =>
            cases hsep : tail.head?.any units.isSep with
            | false => exact hsep
            | true => exact absurd List.suffix_rfl (hend hsep)
          | cons v w => exact hw v (by simp)
        · obtain ⟨t, ht⟩ := List.head?_eq_some_iff.1 hnext
          by_contra hlast
          exact hup (by simpa using hlast) ⟨t, congrArg (dot :: ·) ht.symm⟩
      · exact scan_plain hu0 hu hdot dst _
    rw [List.cons_append, hstep, after_text, ih (fun v hv => hw v (List.mem_cons_of_mem u hv))
      (fun h => hzero (List.mem_cons_of_mem u h)), List.append_assoc, List.singleton_append]
    · intro hlast
      rw [List.getLast?_concat, Option.any_some, hu] at hlast
      cases hlast
    · exact fun hsep hsuff => hend hsep (hsuff.trans (List.suffix_cons u w))

/-! ### What a step does -/

/-- **A round of the loop**: what the buffer holds and the memory from `src` on, the places that are
written, and both afterwards. -/
inductive Round : List ℕ → List ℕ → List ℕ → List ℕ → List ℕ → Prop
  | skip {dst src : List ℕ} {u : ℕ} : Round dst (dot :: u :: src) [] dst src
  | back {dst dir src places : List ℕ} : dir <+: dst → dir.length < dst.length →
      (∀ i ∈ places, i < dst.length) → Round dst (dot :: dot :: src) places dir src
  | start {dst src places : List ℕ} : 2 ≤ dst.length → (∀ i ∈ places, i < dst.length) →
      Round dst (dot :: dot :: src) places [slash] (src.drop 1)
  | push {dst src : List ℕ} {u c : ℕ} : c ≠ 0 → Round dst (u :: src) [dst.length] (dst ++ [c]) src

/-- **Induction on the rounds of the loop.** -/
theorem scan_rule {motive : List ℕ → List ℕ → Edit ℕ → Prop}
    (stop : ∀ dst src, motive dst src ⟨true, dst, []⟩)
    (round : ∀ dst src places dst' src' e, Round dst src places dst' src' → motive dst' src' e →
      motive dst src (after places e))
    (dst src : List ℕ) : motive dst src (scan dst src) := by
  have hlast : ∀ {dst : List ℕ}, dst.getLast?.any units.isSep = true → 0 < dst.length := by
    intro dst h
    cases dst with
    | nil => cases h
    | cons u dst => exact Nat.succ_pos _
  fun_induction scan dst src with
  | case1 dst => exact stop dst []
  | case2 dst src => exact stop dst (0 :: src)
  | case3 dst u h0 hu ih => exact round _ _ _ _ _ _ (.push h0) ih
  | case4 dst u h0 hu v src hv ih =>
    rw [isDot_iff.1 hu]
    exact round _ _ [] _ _ _ .skip ih
  | case5 dst u h0 hu v src hv hup back hback ih =>
    rw [isDot_iff.1 hu, isDot_iff.1 hup.1]
    exact round _ _ [] _ _ _ (.back List.nil_prefix (hlast hup.2)
      fun i hi => absurd hi List.not_mem_nil) ih
  | case6 dst u h0 hu v hv hup back hback dir hdir ih =>
    have hpos := List.length_pos_iff.2 hback
    have hlen : back.length = dst.length - 1 := List.length_dropLast
    rw [isDot_iff.1 hu, isDot_iff.1 hup.1]
    refine round _ _ _ _ _ _ (.start (by omega) fun i hi => ?_) ih
    simp only [List.mem_cons, List.not_mem_nil, or_false] at hi
    omega
  | case7 dst u h0 hu v hv hup back hback dir hdir w src ih =>
    have hpos := List.length_pos_iff.2 hback
    have hlen : back.length = dst.length - 1 := List.length_dropLast
    rw [isDot_iff.1 hu, isDot_iff.1 hup.1]
    refine round _ _ _ _ _ _ (.start (by omega) fun i hi => ?_) ih
    simp only [List.mem_cons, List.not_mem_nil, or_false] at hi
    omega
  | case8 dst u h0 hu v src hv hup back hback dir hdir ih =>
    have hpos := hlast hup.2
    have hlen : back.length = dst.length - 1 := List.length_dropLast
    have hpre : dir <+: back := List.rdropWhile_prefix _ _
    have hle := hpre.length_le
    rw [isDot_iff.1 hu, isDot_iff.1 hup.1]
    refine round _ _ _ _ _ _ (.back (hpre.trans (List.dropLast_prefix dst)) (by omega)
      fun i hi => ?_) ih
    rw [List.mem_singleton.1 hi]
    omega
  | case9 dst u h0 hu v src hv hup ih => exact round _ _ _ _ _ _ (.push h0) ih
  | case10 dst u src h0 hu hsep ih => exact round _ _ _ _ _ _ (.push (by decide)) ih
  | case11 dst u src h0 hu hsep ih => exact round _ _ _ _ _ _ (.push h0) ih

theorem Round.length_le {places dst' src' : List ℕ} (h : Round dst src places dst' src') :
    dst'.length + src'.length ≤ dst.length + src.length ∧
      ∀ i ∈ places, i < dst.length + src.length := by
  cases h with
  | skip =>
    simp only [List.length_cons]
    exact ⟨by omega, fun i hi => absurd hi List.not_mem_nil⟩
  | back _ hlen hplaces =>
    simp only [List.length_cons]
    exact ⟨by omega, fun i hi => by have := hplaces i hi; omega⟩
  | start hlen hplaces =>
    simp only [List.length_cons, List.length_drop, List.length_nil]
    exact ⟨by omega, fun i hi => by have := hplaces i hi; omega⟩
  | push _ =>
    simp only [List.length_append, List.length_cons, List.length_nil]
    exact ⟨by omega, fun i hi => by rw [List.mem_singleton.1 hi]; omega⟩

/-- **The scan writes no more than it reads.** -/
theorem length_scan_le (dst src : List ℕ) :
    (scan dst src).text.length ≤ dst.length + src.length ∧
      ∀ i ∈ (scan dst src).writes, i < dst.length + src.length := by
  refine scan_rule (motive := fun dst src e => e.text.length ≤ dst.length + src.length ∧
    ∀ i ∈ e.writes, i < dst.length + src.length) (fun dst src => ?_)
    (fun dst src places dst' src' e h ih => ?_) dst src
  · exact ⟨Nat.le_add_right _ _, fun i hi => absurd hi List.not_mem_nil⟩
  · obtain ⟨hlen, hplaces⟩ := h.length_le
    refine ⟨ih.1.trans hlen, fun i hi => ?_⟩
    rcases List.mem_append.1 hi with hi | hi
    · exact hplaces i hi
    · exact (ih.2 i hi).trans_le hlen

/-- **No terminator is copied.** -/
theorem zero_notMem_scan (h : 0 ∉ dst) (src : List ℕ) : 0 ∉ (scan dst src).text := by
  refine scan_rule (motive := fun dst _ e => 0 ∉ dst → 0 ∉ e.text) (fun dst _ h => h)
    (fun dst src places dst' src' e hround ih h => ih ?_) dst src h
  cases hround with
  | skip => exact h
  | back hpre _ _ => exact fun h0 => h (hpre.mem h0)
  | start _ _ => decide
  | push hc =>
    intro h0
    rcases List.mem_append.1 h0 with h0 | h0
    · exact h h0
    · exact hc (List.mem_singleton.1 h0).symm

/-! ### Straight paths -/

/-- `b` is a root, of a drive or not. -/
def IsRoot : Bool → List ℕ → Prop
  | true, b => ∃ x, units.isSep x = false ∧ x ≠ 0 ∧ b = [x, colon, slash]
  | false, b => b = [slash]

variable {drive : Bool} {b c q t rest : List ℕ} {st cs : List (List ℕ)} {k : ℕ}

theorem straight_last : Straight drive k [c] ↔ if c = [dot, dot] then k = 1
    else c ≠ [dot] ∧ ¬[dot, dot] <+: c ∧ ¬(c = [colon] ∧ k = 0 ∧ drive = false) := Iff.rfl

theorem straight_more (h : cs ≠ []) : Straight drive k (c :: cs) ↔
    if c = [dot] then Straight drive k cs
    else if c = [dot, dot] then k = 0 ∧ drive = false ∧ Straight drive 0 cs
    else ¬[dot, dot] <+: c ∧ ¬[dot] <:+ c ∧ Straight drive (k + 1) cs := by
  cases cs with
  | nil => exact absurd rfl h
  | cons d cs => exact Iff.rfl

theorem IsRoot.last (hb : IsRoot drive b) : b.getLast?.any units.isSep = true := by
  cases drive with
  | true =>
    obtain ⟨x, -, -, rfl⟩ := hb
    rfl
  | false =>
    obtain rfl := hb
    rfl

theorem last_ended (hb : b.getLast?.any units.isSep = true) (st : List (List ℕ)) :
    (b ++ ended slash st).getLast?.any units.isSep = true := by
  rcases List.eq_nil_or_concat st with rfl | ⟨st, c, rfl⟩
  · rwa [ended_nil, List.append_nil]
  · rw [List.concat_eq_append, ended_concat, ← List.append_assoc, ← List.append_assoc,
      List.getLast?_concat]
    rfl

theorem rdropWhile_component (hb : b.getLast?.any units.isSep = true)
    (hc : Components.NoSep units.isSep c) :
    ((b ++ c).rdropWhile fun x => !units.isSep x) = b := by
  induction c using List.reverseRecOn with
  | nil =>
    rw [List.append_nil]
    rcases List.eq_nil_or_concat b with rfl | ⟨b, u, rfl⟩
    · rfl
    · rw [List.concat_eq_append] at hb ⊢
      rw [List.getLast?_concat, Option.any_some] at hb
      rw [List.rdropWhile_concat_neg _ _ _ (by rw [hb]; decide)]
  | append_singleton c u ih =>
    have hu := hc u (by simp)
    rw [← List.append_assoc, List.rdropWhile_concat_pos _ _ _ (by rw [hu]; decide),
      ih fun v hv => hc v (List.mem_append_left _ hv)]

/-- **Two dots take away the component before.** -/
theorem scan_up_ended (hb : b.getLast?.any units.isSep = true)
    (hc : Components.NoSep units.isSep c) (st : List (List ℕ)) (src : List ℕ) :
    (scan (b ++ ended slash (st ++ [c])) (dot :: dot :: src)).text =
      (scan (b ++ ended slash st) src).text := by
  have hlast := last_ended hb st
  have hne : b ++ ended slash st ≠ [] := by
    intro h
    rw [h] at hlast
    cases hlast
  rw [scan_up (last_ended hb _), ended_concat, ← List.append_assoc, ← List.append_assoc,
    List.dropLast_concat, rdropWhile_component hlast hc,
    if_neg (List.append_ne_nil_of_left_ne_nil hne c), if_neg hne, after_text]

/-- Two dots behind a root that is a separator leave nothing, and the next separator is a root
again. -/
theorem scan_up_root (src : List ℕ) :
    (scan [slash] (dot :: dot :: src)).text = (scan [] src).text := by
  rw [scan_up rfl]
  rfl

theorem ne_dot_of_sep (hu : units.isSep u = true) (src : List ℕ) :
    (u :: src).head? ≠ some dot := by
  intro h
  rw [List.head?_cons, Option.some_inj] at h
  subst h
  cases hu

theorem scan_more (hw : Components.NoSep units.isSep w) (hzero : 0 ∉ w)
    (hup : ¬[dot, dot] <+: w) (hend : ¬[dot] <:+ w) (hu : units.isSep u = true)
    (st : List (List ℕ)) (src : List ℕ) :
    (scan (b ++ ended slash st) (w ++ u :: src)).text =
      (scan (b ++ ended slash (st ++ [w])) src).text := by
  rw [scan_component hw hzero (fun _ h => hup (up_of_append h (ne_dot_of_sep hu src)))
    fun _ => hend, scan_sep hu, after_text, ended_concat, List.append_assoc, List.append_assoc]

/-- **A straight path is resolved.** -/
theorem scan_straight (hb : IsRoot drive b) (hst : ∀ c ∈ st, Components.NoSep units.isSep c)
    (hzero : 0 ∉ rest) (h : Straight drive st.length (Components.components units.isSep rest))
    (behind : List ℕ) :
    (scan (b ++ ended slash st) (rest ++ 0 :: behind)).text =
      b ++ joined slash (resolve [dot] [dot, dot] st (Components.components units.isSep rest)) := by
  induction rest using component_induction units.isSep generalizing st with
  | last w hw =>
    rw [components_last hw] at h ⊢
    rw [straight_last] at h
    by_cases hup : w = [dot, dot]
    · rw [if_pos hup] at h
      obtain ⟨c, rfl⟩ := List.length_eq_one_iff.1 h
      have hpop := scan_up_ended hb.last (hst c List.mem_cons_self) [] (0 :: behind)
      subst hup
      rw [List.nil_append, ended_nil, List.append_nil, scan_zero] at hpop
      refine hpop.trans ?_
      rw [resolve, if_neg (by decide), if_pos rfl, resolve, List.dropLast_singleton, joined_nil,
        List.append_nil]
    · rw [if_neg hup] at h
      rw [scan_component hw hzero (fun _ hpre => h.2.1 (up_of_append hpre (by simp [dot])))
        (fun hsep => by cases hsep), scan_zero, resolve, if_neg h.1, if_neg hup, resolve,
        joined_concat, List.append_assoc]
  | more w u rest hw hu ih =>
    rw [components_more hw hu] at h ⊢
    rw [straight_more (components_ne_nil rest)] at h
    have hzero' : 0 ∉ rest := fun h => hzero (by simp [h])
    rw [List.append_assoc, List.cons_append]
    split_ifs at h with hcur hup
    · subst hcur
      rw [List.singleton_append, scan_dot_sep hu, resolve, if_pos rfl]
      exact ih hst hzero' h
    · obtain ⟨hk, rfl, h⟩ := h
      obtain rfl := List.length_eq_zero_iff.1 hk
      obtain rfl : b = [slash] := hb
      subst hup
      have hpop := scan_up_root (u :: (rest ++ 0 :: behind))
      rw [scan_sep hu, after_text] at hpop
      rw [ended_nil, List.append_nil, resolve, if_neg (by decide), if_pos rfl, List.dropLast_nil]
      exact hpop.trans (ih hst hzero' h)
    · rw [scan_more hw (fun h => hzero (List.mem_append_left _ h)) h.1 h.2.1 hu, resolve,
        if_neg hcur, if_neg hup]
      refine ih (fun c hc => ?_) hzero' (by rw [List.length_append]; exact h.2.2)
      rcases List.mem_append.1 hc with hc | hc
      · exact hst c hc
      · exact List.mem_singleton.1 hc ▸ hw

/-! ### Paths that are not straight -/

theorem length_scan_up_lt (h : dst.getLast?.any units.isSep = true) (src : List ℕ) :
    (scan dst (dot :: dot :: src)).text.length < dst.length + src.length := by
  have hne : dst ≠ [] := by
    rintro rfl
    cases h
  have hpos := List.length_pos_iff.2 hne
  have hdrop : dst.dropLast.length = dst.length - 1 := List.length_dropLast
  rw [scan_up h]
  split_ifs with hback hdir
  · have := (length_scan_le [] src).1
    simp only [List.length_nil] at this
    omega
  · have hle := (length_scan_le [slash] (src.drop 1)).1
    have hback' := List.length_pos_iff.2 hback
    rw [List.length_singleton, List.length_drop] at hle
    rw [after_text]
    omega
  · have hle := (length_scan_le (dst.dropLast.rdropWhile fun x => !units.isSep x) src).1
    have hpre := (List.rdropWhile_prefix (fun x => !units.isSep x) dst.dropLast).length_le
    rw [after_text]
    omega

theorem length_finish_le (t : List ℕ) : (finish t).length ≤ t.length + 1 := by
  unfold finish
  split_ifs
  · rw [List.length_append, List.length_singleton]
  · exact Nat.le_succ _

theorem finish_of_last (h : t.getLast? ≠ some colon) : finish t = t := by
  unfold finish
  refine if_neg ?_
  rintro ⟨hlen, hcolon⟩
  obtain ⟨x, y, rfl⟩ := List.length_eq_two.1 hlen
  exact h (congrArg some (isColon_iff.1 hcolon))

theorem finish_of_sep (h : t.getLast?.any units.isSep = true) : finish t = t := by
  refine finish_of_last fun hcolon => ?_
  rw [hcolon] at h
  cases h

theorem scan_up_drive (hb : IsRoot true b) (src : List ℕ) :
    (scan b ([dot, dot] ++ src)).text = (scan [slash] (src.drop 1)).text := by
  obtain ⟨x, hx, -, rfl⟩ := hb
  have hdir : ([x, colon].rdropWhile fun x => !units.isSep x) = [] := by
    rw [List.rdropWhile_eq_nil_iff]
    intro y hy
    rcases List.mem_pair.1 hy with rfl | rfl
    · rw [hx]
      rfl
    · rfl
  have hup := scan_up (rfl : [x, colon, slash].getLast?.any units.isSep = true) src
  rw [show [x, colon, slash].dropLast = [x, colon] from rfl, if_neg (by simp), if_pos hdir] at hup
  exact (congrArg Edit.text hup).trans rfl

/-- A last component that is not straight: the scan does not leave what it should. -/
theorem last_wrong (hb : IsRoot drive b) (hst : ∀ c ∈ st, Components.NoSep units.isSep c)
    (h : ¬Straight drive st.length [w]) :
    finish (scan (b ++ ended slash st) (w ++ [0])).text ≠
      b ++ joined slash (resolve [dot] [dot, dot] st [w]) := by
  have hb' := hb.last
  have hjoined : st ≠ [] → (ended slash st).length = (joined slash st).length + 1 :=
    length_ended slash st
  have hlast := last_ended hb' st
  rw [straight_last] at h
  split_ifs at h with hup
  · -- `..` is not behind one component
    subst hup
    rw [resolve, if_neg (by decide), if_pos rfl, resolve]
    rcases List.eq_nil_or_concat st with rfl | ⟨st, c, rfl⟩
    · rw [ended_nil, List.append_nil, List.dropLast_nil, joined_nil, List.append_nil]
      cases drive with
      | true =>
        rw [scan_up_drive hb]
        obtain ⟨x, -, -, rfl⟩ := hb
        exact fun h => by cases h
      | false =>
        obtain rfl : b = [slash] := hb
        decide
    · rw [List.concat_eq_append] at h hst ⊢
      have hpop := scan_up_ended hb' (hst c (by simp)) st [0]
      have hne : st ≠ [] := by
        rintro rfl
        exact h rfl
      have hlen := length_ended slash st hne
      rw [scan_zero] at hpop
      have heq : (scan (b ++ ended slash (st ++ [c])) ([dot, dot] ++ [0])).text =
          b ++ ended slash st := hpop
      rw [heq, finish_of_sep (last_ended hb' st), List.dropLast_concat]
      intro h
      have := congrArg List.length h
      simp only [List.length_append] at this
      omega
  · by_cases hcur : w = [dot]
    · -- a last `.` is copied
      subst hcur
      have hcopy : (scan (b ++ ended slash st) ([dot] ++ [0])).text =
          b ++ ended slash st ++ [dot] := by
        rw [List.singleton_append, scan_dot rfl (fun h => by cases h), after_text, scan_zero]
      rw [hcopy, finish_of_last (by rw [List.getLast?_concat]; decide), resolve, if_pos rfl,
        resolve]
      intro h
      have hlen := congrArg List.length h
      simp only [List.length_append, List.length_singleton] at hlen
      by_cases hnil : st = []
      · subst hnil
        simp only [ended_nil, joined_nil, List.length_nil] at hlen
        omega
      · have := hjoined hnil
        omega
    · rw [resolve, if_neg hcur, if_neg hup, resolve, joined_concat]
      by_cases hpre : [dot, dot] <+: w
      · -- two dots at the beginning back up
        obtain ⟨v, rfl⟩ := hpre
        have hlt := length_scan_up_lt hlast (v ++ [0])
        have hfin := length_finish_le
          (scan (b ++ ended slash st) (dot :: dot :: (v ++ [0]))).text
        intro h
        have hlen := congrArg List.length h
        simp only [List.cons_append, List.nil_append, List.length_append, List.length_cons,
          List.length_nil] at hlen hlt hfin
        omega
      · -- a component that is a colon looks like a naked drive
        have hcolon : w = [colon] ∧ st.length = 0 ∧ drive = false := by
          by_contra hno
          exact h ⟨hcur, hpre, hno⟩
        obtain ⟨rfl, hnil, rfl⟩ := hcolon
        obtain rfl := List.length_eq_zero_iff.1 hnil
        obtain rfl : b = [slash] := hb
        decide

/-- A component that is not straight in front of a separator: the scan does not leave what it
should. -/
theorem more_wrong (hb : IsRoot drive b) (hst : ∀ c ∈ st, Components.NoSep units.isSep c)
    (hw : Components.NoSep units.isSep w) (hzero : 0 ∉ w) (hu : units.isSep u = true)
    (hcur : w ≠ [dot]) (hup : w = [dot, dot] → ¬(st = [] ∧ drive = false))
    (hdots : w ≠ [dot, dot] → [dot, dot] <+: w ∨ [dot] <:+ w) :
    finish (scan (b ++ ended slash st) (w ++ [u, 0])).text ≠
      b ++ joined slash (resolve [dot] [dot, dot] st [w, []]) := by
  have hlast := last_ended hb.last st
  by_cases hw' : w = [dot, dot]
  · subst hw'
    rw [resolve, if_neg (by decide), if_pos rfl, resolve, if_neg (by decide), if_neg (by decide),
      resolve, joined_concat, List.append_nil]
    rcases List.eq_nil_or_concat st with rfl | ⟨st, c, rfl⟩
    · rw [ended_nil, List.append_nil]
      cases drive with
      | true =>
        rw [scan_up_drive hb]
        obtain ⟨x, -, -, rfl⟩ := hb
        exact fun h => by cases h
      | false => exact absurd ⟨rfl, rfl⟩ (hup rfl)
    · -- a second separator is left
      rw [List.concat_eq_append] at hst ⊢
      have hpop := scan_up_ended hb.last (hst c (by simp)) st [u, 0]
      rw [scan_sep hu, after_text, scan_zero] at hpop
      have heq : (scan (b ++ ended slash (st ++ [c])) ([dot, dot] ++ [u, 0])).text =
          b ++ ended slash st ++ [slash] := hpop
      rw [heq, finish_of_sep (by rw [List.getLast?_concat]; rfl), List.dropLast_concat]
      intro h
      have := congrArg List.length h
      simp only [List.length_append, List.length_singleton] at this
      omega
  · rw [resolve, if_neg hcur, if_neg hw', resolve, if_neg (by decide), if_neg (by decide), resolve,
      joined_concat, ended_concat, List.append_nil]
    by_cases hpre : [dot, dot] <+: w
    · -- two dots at the beginning back up
      obtain ⟨v, rfl⟩ := hpre
      have hlt := length_scan_up_lt hlast (v ++ [u, 0])
      have hfin := length_finish_le
        (scan (b ++ ended slash st) (dot :: dot :: (v ++ [u, 0]))).text
      intro h
      have hlen := congrArg List.length h
      simp only [List.cons_append, List.nil_append, List.length_append, List.length_cons,
        List.length_nil] at hlen hlt hfin
      omega
    · -- the dot at the end is left out, together with the separator
      obtain ⟨v, rfl⟩ := (hdots hw').resolve_left hpre
      have hv : Components.NoSep units.isSep v := fun x hx => hw x (List.mem_append_left _ hx)
      have hcopy : (scan (b ++ ended slash st) (v ++ [dot] ++ [u, 0])).text =
          b ++ ended slash st ++ v := by
        rw [List.append_assoc, scan_component hv (fun h => hzero (List.mem_append_left _ h))
          (fun _ h => hpre ?_) (fun h => by cases h), List.singleton_append, scan_dot_sep hu,
          scan_zero]
        rw [← List.append_assoc] at h
        exact up_of_append h (ne_dot_of_sep hu [0])
      have hfin := length_finish_le (b ++ ended slash st ++ v)
      rw [hcopy]
      intro h
      have hlen := congrArg List.length h
      simp only [List.length_append, List.length_singleton] at hlen hfin
      omega

/-- **Where the scan goes wrong**: at a stage of each path that is not straight. -/
theorem exists_stage (hb : IsRoot drive b) (hst : ∀ c ∈ st, Components.NoSep units.isSep c)
    (hzero : 0 ∉ rest) (h : ¬Straight drive st.length (Components.components units.isSep rest)) :
    ∃ q, Stage units.isSep rest q ∧ finish (scan (b ++ ended slash st) (q ++ [0])).text ≠
      b ++ joined slash (resolve [dot] [dot, dot] st (Components.components units.isSep q)) := by
  induction rest using component_induction units.isSep generalizing st with
  | last w hw =>
    rw [components_last hw] at h
    refine ⟨w, stage_self w, ?_⟩
    rw [components_last hw]
    exact last_wrong hb hst h
  | more w u rest hw hu ih =>
    rw [components_more hw hu, straight_more (components_ne_nil rest)] at h
    have hzero' : 0 ∉ rest := fun h => hzero (by simp [h])
    have hstage : ∀ q, Stage units.isSep rest q →
        Stage units.isSep (w ++ u :: rest) (w ++ u :: q) :=
      fun q hq => (stage_more hw hu).2 (.inr ⟨q, hq, rfl⟩)
    have hwzero : 0 ∉ w := fun h => hzero (List.mem_append_left _ h)
    have hwrong (hcur : w ≠ [dot]) (hup : w = [dot, dot] → ¬(st = [] ∧ drive = false))
        (hdots : w ≠ [dot, dot] → [dot, dot] <+: w ∨ [dot] <:+ w) :
        ∃ q, Stage units.isSep (w ++ u :: rest) q ∧
          finish (scan (b ++ ended slash st) (q ++ [0])).text ≠
            b ++
              joined slash
                (resolve [dot] [dot, dot] st (Components.components units.isSep q)) := by
      refine ⟨w ++ [u], hstage [] ⟨List.nil_prefix, .inr (.inl rfl)⟩, ?_⟩
      rw [components_more hw hu, components_nil, List.append_assoc]
      exact more_wrong hb hst hw hwzero hu hcur hup hdots
    split_ifs at h with hcur hup
    · obtain ⟨q, hq, hne⟩ := ih hst hzero' h
      refine ⟨w ++ u :: q, hstage q hq, ?_⟩
      rw [components_more hw hu, resolve, if_pos hcur, List.append_assoc, List.cons_append, hcur,
        List.singleton_append, scan_dot_sep hu]
      exact hne
    · by_cases hroot : st = [] ∧ drive = false
      · obtain ⟨rfl, rfl⟩ := hroot
        obtain rfl : b = [slash] := hb
        obtain ⟨q, hq, hne⟩ := ih hst hzero' fun hs => h ⟨rfl, rfl, hs⟩
        refine ⟨w ++ u :: q, hstage q hq, ?_⟩
        have hpop := scan_up_root (u :: (q ++ [0]))
        rw [scan_sep hu, after_text] at hpop
        rw [components_more hw hu, resolve, if_neg hcur, if_pos hup, List.append_assoc,
          List.cons_append, hup, ended_nil, List.append_nil]
        refine fun heq => hne (Eq.trans (congrArg finish ?_) heq)
        exact hpop.symm
      · exact hwrong hcur (fun _ => hroot) fun hne => absurd hup hne
    · by_cases hdots : ¬[dot, dot] <+: w ∧ ¬[dot] <:+ w
      · have hst' : ∀ c ∈ st ++ [w], Components.NoSep units.isSep c := by
          intro c hc
          rcases List.mem_append.1 hc with hc | hc
          · exact hst c hc
          · exact List.mem_singleton.1 hc ▸ hw
        obtain ⟨q, hq, hne⟩ := ih hst' hzero' fun hs =>
          h ⟨hdots.1, hdots.2, by rwa [List.length_append] at hs⟩
        refine ⟨w ++ u :: q, hstage q hq, ?_⟩
        rw [components_more hw hu, resolve, if_neg hcur, if_neg hup, List.append_assoc,
          List.cons_append, scan_more hw hwzero hdots.1 hdots.2 hu]
        exact hne
      · refine hwrong hcur (fun h => absurd h hup) fun _ => ?_
        by_contra hno
        exact hdots (not_or.1 hno)

/-! ### What resolution leaves -/

/-- A component in front of another. -/
def Kept (c : List ℕ) : Prop := ¬[dot, dot] <+: c ∧ ¬[dot] <:+ c

/-- A last component. -/
def LastKept (c : List ℕ) : Prop := c ≠ [dot] ∧ ¬[dot, dot] <+: c

theorem Kept.ne (h : Kept c) : c ≠ [dot] ∧ c ≠ [dot, dot] := by
  constructor
  · rintro rfl
    exact h.2 List.suffix_rfl
  · rintro rfl
    exact h.1 List.prefix_rfl

theorem LastKept.ne (h : LastKept c) : c ≠ [dot] ∧ c ≠ [dot, dot] := by
  refine ⟨h.1, ?_⟩
  rintro rfl
  exact h.2 List.prefix_rfl

/-- **The components of a straight path that are left.** -/
theorem resolve_straight (hne : cs ≠ []) (hst : ∀ c ∈ st, Kept c)
    (h : Straight drive st.length cs) :
    resolve [dot] [dot, dot] st cs = [] ∨
    ∃ init last, resolve [dot] [dot, dot] st cs = init ++ [last] ∧ (∀ c ∈ init, Kept c) ∧
      LastKept last ∧ ¬(last = [colon] ∧ init.length = 0 ∧ drive = false) := by
  induction cs generalizing st with
  | nil => exact absurd rfl hne
  | cons c cs ih =>
    by_cases hcs : cs = []
    · subst hcs
      rw [straight_last] at h
      rw [resolve]
      split_ifs at h with hup
      · obtain ⟨d, rfl⟩ := List.length_eq_one_iff.1 h
        subst hup
        rw [if_neg (by decide), if_pos rfl]
        exact .inl rfl
      · rw [if_neg h.1, if_neg hup]
        exact .inr ⟨st, c, rfl, hst, ⟨h.1, h.2.1⟩, h.2.2⟩
    · rw [straight_more hcs] at h
      rw [resolve]
      split_ifs at h with hcur hup
      · rw [if_pos hcur]
        exact ih hcs hst h
      · obtain ⟨hk, rfl, h⟩ := h
        obtain rfl := List.length_eq_zero_iff.1 hk
        rw [if_neg hcur, if_pos hup]
        exact ih hcs hst h
      · rw [if_neg hcur, if_neg hup]
        refine ih hcs (fun d hd => ?_) (by rw [List.length_append]; exact h.2.2)
        rcases List.mem_append.1 hd with hd | hd
        · exact hst d hd
        · exact List.mem_singleton.1 hd ▸ ⟨h.1, h.2.1⟩

theorem straight_of_kept {init : List (List ℕ)} (hinit : ∀ d ∈ init, Kept d) (hc : LastKept c)
    (hcolon : ¬(c = [colon] ∧ k + init.length = 0 ∧ drive = false)) :
    Straight drive k (init ++ [c]) := by
  induction init generalizing k with
  | nil =>
    rw [List.nil_append, straight_last, if_neg hc.ne.2]
    exact ⟨hc.1, hc.2, hcolon⟩
  | cons d init ih =>
    have hd := hinit d List.mem_cons_self
    rw [List.cons_append, straight_more (by simp), if_neg hd.ne.1, if_neg hd.ne.2]
    refine ⟨hd.1, hd.2, ih (fun e he => hinit e (List.mem_cons_of_mem d he)) ?_⟩
    rintro ⟨-, h, -⟩
    omega

theorem straight_nil (drive : Bool) (k : ℕ) :
    Straight drive k (Components.components units.isSep []) := by
  rw [components_nil, straight_last, if_neg (by decide)]
  exact ⟨by decide, by decide, fun h => by cases h.1⟩

/-- **A stage of a straight path is straight.** -/
theorem straight_stage (h : Straight drive k (Components.components units.isSep rest))
    (hq : Stage units.isSep rest q) : Straight drive k (Components.components units.isSep q) := by
  induction rest using component_induction units.isSep generalizing k q with
  | last w hw =>
    rcases (stage_last hw).1 hq with rfl | rfl
    · exact h
    · exact straight_nil drive k
  | more w u rest hw hu ih =>
    rcases (stage_more hw hu).1 hq with rfl | ⟨q, hstage, rfl⟩
    · exact straight_nil drive k
    · rw [components_more hw hu] at h ⊢
      rw [straight_more (components_ne_nil _)] at h ⊢
      split_ifs at h ⊢ with hcur hup
      · exact ih h hstage
      · exact ⟨h.1, h.2.1, ih h.2.2 hstage⟩
      · exact ⟨h.1, h.2.1, ih h.2.2 hstage⟩

/-! ### Absolute paths -/

variable {p : List ℕ}

/-- A directory on the way of the path, or the path. -/
def OnTheWay (p q : List ℕ) : Prop := q <+: p ∧ (q = p ∨ q.getLast?.any units.isSep = true)

/-- The scan does what it should, in a path. -/
def StraightPath (p : List ℕ) : Prop :=
  Straight (onDrive p) 0 (Components.components units.isSep (behindRoot p))

instance decidableStraightPath (p : List ℕ) : Decidable (StraightPath p) :=
  inferInstanceAs (Decidable (Straight _ _ _))

theorem absolute_cases (h : Absolute p) :
    (∃ u r, units.isSep u = true ∧ p = u :: r) ∨
    (∃ x, units.isSep x = false ∧ p = [x, colon]) ∨
    ∃ x u r, units.isSep x = false ∧ units.isSep u = true ∧ p = x :: colon :: u :: r := by
  rcases p with _ | ⟨x, p⟩
  · rcases h with h | ⟨h, -⟩ <;> cases h
  cases hx : units.isSep x with
  | true => exact .inl ⟨x, p, hx, rfl⟩
  | false =>
    rcases h with h | ⟨hc, hs⟩
    · rw [List.head?_cons, Option.any_some, hx] at h
      cases h
    · rcases p with _ | ⟨c, _ | ⟨u, r⟩⟩
      · cases hc
      · obtain rfl := isColon_iff.1 hc
        exact .inr (.inl ⟨x, hx, rfl⟩)
      · obtain rfl := isColon_iff.1 hc
        exact .inr (.inr ⟨x, u, r, hx, hs, rfl⟩)

theorem parts_sep (hu : units.isSep u = true) (r : List ℕ) :
    Absolute (u :: r) ∧ onDrive (u :: r) = false ∧ root (u :: r) = [slash] ∧
      behindRoot (u :: r) = r := by
  have hdrive : onDrive (u :: r) = false := by
    unfold onDrive
    rw [List.head?_cons, Option.any_some, hu]
    rfl
  unfold behindRoot root
  rw [hdrive]
  exact ⟨.inl hu, rfl, rfl, rfl⟩

theorem parts_drive (hu : units.isSep u = false) (r : List ℕ) :
    onDrive (u :: colon :: r) = true ∧ root (u :: colon :: r) = [u, colon, slash] ∧
      behindRoot (u :: colon :: r) = r.drop 1 := by
  have hdrive : onDrive (u :: colon :: r) = true := by
    unfold onDrive
    rw [List.head?_cons, Option.any_some, hu]
    rfl
  unfold behindRoot root
  rw [hdrive]
  exact ⟨rfl, rfl, rfl⟩

theorem isRoot (h : Absolute p) (hzero : 0 ∉ p) : IsRoot (onDrive p) (root p) := by
  have hdrive : ∀ {x : ℕ} {r : List ℕ}, units.isSep x = false → 0 ∉ x :: colon :: r →
      IsRoot (onDrive (x :: colon :: r)) (root (x :: colon :: r)) := by
    intro x r hx hzero
    obtain ⟨hd, hr, -⟩ := parts_drive hx r
    rw [hd, hr]
    exact ⟨x, hx, fun h => hzero (h ▸ List.mem_cons_self), rfl⟩
  rcases absolute_cases h with ⟨u, r, hu, rfl⟩ | ⟨x, hx, rfl⟩ | ⟨x, u, r, hx, hu, rfl⟩
  · obtain ⟨-, hd, hr, -⟩ := parts_sep hu r
    rw [hd, hr]
    rfl
  · exact hdrive hx hzero
  · exact hdrive hx hzero

theorem root_append (hb : IsRoot drive b) (r : List ℕ) :
    Absolute (b ++ r) ∧ onDrive (b ++ r) = drive ∧ root (b ++ r) = b ∧ behindRoot (b ++ r) = r := by
  cases drive with
  | true =>
    obtain ⟨x, hx, -, rfl⟩ := hb
    exact ⟨.inr ⟨rfl, rfl⟩, parts_drive hx (slash :: r)⟩
  | false =>
    obtain rfl : b = [slash] := hb
    exact parts_sep isSep_slash r

theorem OnTheWay.parts (h : Absolute p) (hq : OnTheWay p q) :
    Absolute q ∧ onDrive q = onDrive p ∧ root q = root p ∧
      Stage units.isSep (behindRoot p) (behindRoot q) := by
  have hself : Absolute p ∧ onDrive p = onDrive p ∧ root p = root p ∧
      Stage units.isSep (behindRoot p) (behindRoot p) := ⟨h, rfl, rfl, stage_self _⟩
  obtain ⟨hpre, rfl | hlast⟩ := hq
  · exact hself
  have hstage : ∀ {x : ℕ} {r q' : List ℕ}, (x :: q').getLast?.any units.isSep = true → q' <+: r →
      Stage units.isSep r q' := by
    intro x r q' hlast hpre
    refine ⟨hpre, .inr ?_⟩
    by_cases hnil : q' = []
    · exact .inl hnil
    · rw [List.getLast?_cons_of_ne_nil hnil] at hlast
      exact .inr hlast
  rcases absolute_cases h with ⟨u, r, hu, rfl⟩ | ⟨x, hx, rfl⟩ | ⟨x, u, r, hx, hu, rfl⟩
  · rcases List.prefix_cons_iff.1 hpre with rfl | ⟨q', rfl, hq'⟩
    · cases hlast
    · obtain ⟨-, hd, hr, hb⟩ := parts_sep hu r
      obtain ⟨ha', hd', hr', hb'⟩ := parts_sep hu q'
      rw [hd, hr, hb, hd', hr', hb']
      exact ⟨ha', rfl, rfl, hstage hlast hq'⟩
  · -- a drive without a separator has nothing on its way
    rcases List.prefix_cons_iff.1 hpre with rfl | ⟨q', rfl, hq'⟩
    · cases hlast
    · rcases List.prefix_cons_iff.1 hq' with rfl | ⟨q'', rfl, hq''⟩
      · rw [List.getLast?_singleton, Option.any_some, hx] at hlast
        cases hlast
      · obtain rfl := List.prefix_nil.1 hq''
        exact hself
  · rcases List.prefix_cons_iff.1 hpre with rfl | ⟨q', rfl, hq'⟩
    · cases hlast
    · rcases List.prefix_cons_iff.1 hq' with rfl | ⟨q'', rfl, hq''⟩
      · rw [List.getLast?_singleton, Option.any_some, hx] at hlast
        cases hlast
      · rcases List.prefix_cons_iff.1 hq'' with rfl | ⟨r', rfl, hr'⟩
        · cases hlast
        · obtain ⟨hd, hr, hb⟩ := parts_drive hx (u :: r)
          obtain ⟨hd', hr', hb'⟩ := parts_drive hx (u :: r')
          rw [hd, hr, hb, hd', hr', hb']
          refine ⟨.inr ⟨rfl, hu⟩, rfl, rfl, ?_⟩
          exact hstage (x := u) (by simpa using hlast) ‹r' <+: r›

/-- Each stage behind the root is one of a directory on the way. -/
theorem onTheWay_of_stage (h : Absolute p) (hq : Stage units.isSep (behindRoot p) q) :
    ∃ d, OnTheWay p d ∧ Absolute d ∧ root d = root p ∧ behindRoot d = q := by
  rcases absolute_cases h with ⟨u, r, hu, rfl⟩ | ⟨x, hx, rfl⟩ | ⟨x, u, r, hx, hu, rfl⟩
  · obtain ⟨-, -, hr, hb⟩ := parts_sep hu r
    obtain ⟨ha', -, hr', hb'⟩ := parts_sep hu q
    rw [hb] at hq
    refine ⟨u :: q, ⟨(List.prefix_cons_inj u).2 hq.1, ?_⟩, ha', hr'.trans hr.symm, hb'⟩
    rcases hq.2 with rfl | rfl | hlast
    · exact .inl rfl
    · exact .inr hu
    · right
      have hne : q ≠ [] := by
        rintro rfl
        cases hlast
      rwa [List.getLast?_cons_of_ne_nil hne]
  · obtain ⟨-, -, hb⟩ := parts_drive hx []
    rw [hb] at hq
    obtain rfl := List.prefix_nil.1 hq.1
    exact ⟨[x, colon], ⟨List.prefix_rfl, .inl rfl⟩, h, rfl, hb⟩
  · obtain ⟨-, hr, hb⟩ := parts_drive hx (u :: r)
    obtain ⟨-, hr', hb'⟩ := parts_drive hx (u :: q)
    rw [hb] at hq
    refine ⟨x :: colon :: u :: q, ⟨?_, ?_⟩, .inr ⟨rfl, hu⟩, hr'.trans hr.symm, hb'⟩
    · exact (List.prefix_cons_inj x).2 ((List.prefix_cons_inj colon).2
        ((List.prefix_cons_inj u).2 hq.1))
    · rcases hq.2 with rfl | rfl | hlast
      · exact .inl rfl
      · exact .inr hu
      · right
        have hne : q ≠ [] := by
          rintro rfl
          cases hlast
        simpa [List.getLast?_cons_of_ne_nil hne] using hlast

/-! ### Canonical paths -/

theorem zero_notMem_behindRoot (hzero : 0 ∉ p) : 0 ∉ behindRoot p :=
  fun h => hzero (List.mem_of_mem_drop h)

/-- **What `PathCanonicalizeW` leaves** for an absolute path. -/
theorem canonicalize_text (h : Absolute p) (hzero : 0 ∉ p) (behind : List ℕ) :
    (PathCanonicalizeW (p ++ 0 :: behind)).text =
      finish (scan (root p) (behindRoot p ++ 0 :: behind)).text := by
  have htext : ∀ {x : ℕ} {r : List ℕ}, 0 ∉ x :: r →
      (PathCanonicalizeW (x :: r ++ 0 :: behind)).text =
        finish (scan (copyRoot (x :: r ++ 0 :: behind)).1
          (copyRoot (x :: r ++ 0 :: behind)).2).text := by
    intro x r hzero
    have hx : (x == 0) = false := beq_eq_false_iff_ne.2 fun hx => hzero (hx ▸ List.mem_cons_self)
    unfold PathCanonicalizeW
    rw [List.cons_append, List.head?_cons, Option.all_some, hx, if_neg Bool.false_ne_true]
  rcases absolute_cases h with ⟨u, r, hu, rfl⟩ | ⟨x, hx, rfl⟩ | ⟨x, u, r, hx, hu, rfl⟩
  · obtain ⟨-, -, hr, hb⟩ := parts_sep hu r
    rw [htext hzero, hr, hb, List.cons_append, copyRoot, if_pos hu]
  · obtain ⟨-, hr, hb⟩ := parts_drive hx []
    have hcopy : copyRoot ([x, colon] ++ 0 :: behind) = ([x, colon], 0 :: behind) := by
      rw [List.cons_append, copyRoot, hx]
      rfl
    rw [htext hzero, hr, hb, hcopy, scan_zero, List.drop_nil, List.nil_append, scan_zero]
    rfl
  · obtain ⟨-, hr, hb⟩ := parts_drive hx (u :: r)
    have hcopy : copyRoot (x :: colon :: u :: r ++ 0 :: behind) =
        ([x, colon, slash], r ++ 0 :: behind) := by
      rw [List.cons_append, copyRoot, hx, if_neg Bool.false_ne_true]
      simp only [List.cons_append, List.head?_cons, Option.any_some, List.drop_succ_cons,
        List.drop_zero, hu, if_true]
      rfl
    rw [htext hzero, hr, hb, hcopy]
    rfl

theorem noSep_nil : ∀ c ∈ ([] : List (List ℕ)), Components.NoSep units.isSep c :=
  fun _ hc => absurd hc List.not_mem_nil

theorem StraightPath.resolve (hp : StraightPath p) :
    Components.resolve [dot] [dot, dot] []
      (Components.components units.isSep (behindRoot p)) = [] ∨
    ∃ init last, Components.resolve [dot] [dot, dot] []
        (Components.components units.isSep (behindRoot p)) = init ++ [last] ∧
      (∀ c ∈ init, Kept c) ∧ LastKept last ∧
      ¬(last = [colon] ∧ init.length = 0 ∧ onDrive p = false) :=
  resolve_straight (components_ne_nil _) (fun _ hc => absurd hc List.not_mem_nil) hp

theorem finish_resolved (h : Absolute p) (hzero : 0 ∉ p) (hp : StraightPath p) :
    finish (resolved p) = resolved p := by
  have hb := isRoot h hzero
  unfold resolved
  rcases hp.resolve with hnil | ⟨init, last, heq, -, -, hcolon⟩
  · rw [hnil, joined_nil, List.append_nil]
    exact finish_of_sep hb.last
  · rw [heq, joined_concat]
    unfold finish
    refine if_neg ?_
    rintro ⟨hlen, hc⟩
    cases hd : onDrive p with
    | true =>
      rw [hd] at hb
      obtain ⟨x, -, -, hroot⟩ := hb
      rw [hroot] at hlen
      simp at hlen
    | false =>
      rw [hd] at hb
      have hroot : root p = [slash] := hb
      rw [hroot] at hlen hc
      rcases List.eq_nil_or_concat init with rfl | ⟨init, c, rfl⟩
      · rw [ended_nil, List.nil_append] at hlen hc
        obtain ⟨x, rfl⟩ := List.length_eq_one_iff.1 (by simpa using hlen)
        exact hcolon ⟨congrArg (fun x => [x]) (isColon_iff.1 hc), rfl, hd⟩
      · rw [List.concat_eq_append, ended_concat] at hlen hc
        have hlen' : (ended slash init).length + c.length + last.length = 0 := by
          simp only [List.length_append, List.length_cons, List.length_nil] at hlen
          omega
        have h1 := List.length_eq_zero_iff.1 (by omega : (ended slash init).length = 0)
        have h2 := List.length_eq_zero_iff.1 (by omega : c.length = 0)
        have h3 := List.length_eq_zero_iff.1 (by omega : last.length = 0)
        rw [h1, h2, h3] at hc
        cases hc

/-- **A straight path is resolved.** -/
theorem canonicalize_straight (h : Absolute p) (hzero : 0 ∉ p) (hp : StraightPath p)
    (behind : List ℕ) : (PathCanonicalizeW (p ++ 0 :: behind)).text = resolved p := by
  have hscan := scan_straight (isRoot h hzero) noSep_nil (zero_notMem_behindRoot hzero) hp behind
  rw [ended_nil, List.append_nil] at hscan
  rw [canonicalize_text h hzero, hscan]
  exact finish_resolved h hzero hp

/-- **Any other path, or a directory on its way, is not.** -/
theorem exists_onTheWay (h : Absolute p) (hzero : 0 ∉ p) (hp : ¬StraightPath p) :
    ∃ q, OnTheWay p q ∧ (PathCanonicalizeW (q ++ [0])).text ≠ resolved q := by
  obtain ⟨q, hq, hne⟩ :=
    exists_stage (isRoot h hzero) noSep_nil (zero_notMem_behindRoot hzero) hp
  obtain ⟨d, hd, ha, hroot, hbehind⟩ := onTheWay_of_stage h hq
  have hzero' : 0 ∉ d := fun h0 => hzero (hd.1.mem h0)
  refine ⟨d, hd, ?_⟩
  rw [canonicalize_text ha hzero', resolved, hroot, hbehind]
  rwa [ended_nil, List.append_nil] at hne

/-- The directories on the way of a straight path are straight. -/
theorem OnTheWay.straight (h : Absolute p) (hp : StraightPath p) (hq : OnTheWay p q) :
    StraightPath q := by
  obtain ⟨-, hdrive, -, hstage⟩ := hq.parts h
  unfold StraightPath
  rw [hdrive]
  exact straight_stage hp hstage

theorem IsRoot.zero_notMem (hb : IsRoot drive b) : 0 ∉ b := by
  cases drive with
  | true =>
    obtain ⟨x, -, hx, rfl⟩ := hb
    intro h
    rcases List.mem_cons.1 h with h | h
    · exact hx h.symm
    · revert h
      decide
  | false =>
    obtain rfl : b = [slash] := hb
    decide

theorem zero_notMem_resolved (h : Absolute p) (hzero : 0 ∉ p) : 0 ∉ resolved p := by
  intro h0
  rcases List.mem_append.1 h0 with h0 | h0
  · exact (isRoot h hzero).zero_notMem h0
  · rcases mem_joined h0 with h0 | ⟨c, hc, h0⟩
    · cases h0
    · rcases mem_resolve hc with hc | hc
      · cases hc
      · exact zero_notMem_behindRoot hzero ((of_mem_components hc).2 0 h0)

/-- **A resolved path stays as it is.** -/
theorem resolved_resolved (h : Absolute p) (hzero : 0 ∉ p) (hp : StraightPath p) :
    Absolute (resolved p) ∧ StraightPath (resolved p) ∧ resolved (resolved p) = resolved p := by
  have hnoSep : ∀ c ∈ Components.resolve [dot] [dot, dot] []
      (Components.components units.isSep (behindRoot p)), Components.NoSep units.isSep c := by
    intro c hc
    rcases mem_resolve hc with hc | hc
    · cases hc
    · exact (of_mem_components hc).1
  obtain ⟨ha, hdrive, hroot, hbehind⟩ := root_append (isRoot h hzero)
    (joined slash (Components.resolve [dot] [dot, dot] []
      (Components.components units.isSep (behindRoot p))))
  change Absolute (resolved p) at ha
  change onDrive (resolved p) = onDrive p at hdrive
  change root (resolved p) = root p at hroot
  change behindRoot (resolved p) = _ at hbehind
  have heq : resolved (resolved p) = root p ++ joined slash (Components.resolve [dot] [dot, dot] []
      (Components.components units.isSep (behindRoot (resolved p)))) := by
    rw [resolved, hroot]
  refine ⟨ha, ?_⟩
  rw [heq]
  unfold StraightPath
  rw [hdrive, hbehind, resolved]
  rcases hp.resolve with hnil | ⟨init, last, hleft, hinit, hlast, hcolon⟩
  · rw [hnil, joined_nil]
    exact ⟨straight_nil _ 0, rfl⟩
  · rw [hleft] at hnoSep ⊢
    rw [components_joined isSep_slash (by simp) hnoSep, resolve_eq_append, List.nil_append]
    · refine ⟨straight_of_kept hinit hlast ?_, rfl⟩
      rwa [Nat.zero_add]
    · intro c hc
      rcases List.mem_append.1 hc with hc | hc
      · exact (hinit c hc).ne
      · exact List.mem_singleton.1 hc ▸ hlast.ne

theorem length_resolved_le (h : Absolute p) : (resolved p).length ≤ p.length + 1 := by
  have hle := length_joined_resolve_le units.isSep slash [dot] [dot, dot] (behindRoot p)
  unfold resolved
  rw [List.length_append]
  rcases absolute_cases h with ⟨u, r, hu, rfl⟩ | ⟨x, hx, rfl⟩ | ⟨x, u, r, hx, hu, rfl⟩
  · obtain ⟨-, -, hr, hb⟩ := parts_sep hu r
    rw [hb] at hle
    rw [hr, hb, List.length_singleton, List.length_cons]
    omega
  · obtain ⟨-, hr, hb⟩ := parts_drive hx []
    rw [hb] at hle
    rw [hr, hb]
    simp only [List.length_cons, List.length_nil, List.drop_nil] at hle ⊢
    omega
  · obtain ⟨-, hr, hb⟩ := parts_drive hx (u :: r)
    rw [hb] at hle
    rw [hr, hb]
    simp only [List.length_cons, List.length_nil, List.drop_succ_cons, List.drop_zero] at hle ⊢
    omega

theorem mem_resolved (h : Absolute p) {u : ℕ} (hu : u ∈ resolved p) :
    u ∈ p ∨ u = slash ∨ u = colon := by
  rcases List.mem_append.1 hu with hu | hu
  · have hdrive : ∀ {x : ℕ} {r : List ℕ}, u ∈ [x, colon, slash] →
        u ∈ x :: colon :: r ∨ u = slash ∨ u = colon := by
      intro x r hu
      simp only [List.mem_cons, List.not_mem_nil, or_false] at hu ⊢
      rcases hu with hu | hu | hu
      · exact .inl (.inl hu)
      · exact .inr (.inr hu)
      · exact .inr (.inl hu)
    rcases absolute_cases h with ⟨x, r, hx, rfl⟩ | ⟨x, hx, rfl⟩ | ⟨x, y, r, hx, hy, rfl⟩
    · rw [(parts_sep hx r).2.2.1] at hu
      exact .inr (.inl (List.mem_singleton.1 hu))
    · rw [(parts_drive hx []).2.1] at hu
      exact hdrive hu
    · rw [(parts_drive hx (y :: r)).2.1] at hu
      exact hdrive hu
  · rcases mem_joined hu with rfl | ⟨c, hc, hu⟩
    · exact .inr (.inl rfl)
    · rcases mem_resolve hc with hc | hc
      · cases hc
      · exact .inl (List.mem_of_mem_drop ((of_mem_components hc).2 u hu))

/-- Units that the loop does not look out for. -/
def Other (tail : List ℕ) : Prop :=
  ∀ u ∈ tail.head?, units.isSep u = false ∧ units.isDot u = false

/-- The scan stops in the memory. -/
def StopsIn (dst src : List ℕ) : Prop :=
  (scan dst src).text.length < dst.length + src.length ∧
    ∀ tail, scan dst (src ++ tail) = scan dst src

/-- The scan goes on with what comes behind the memory. -/
def GoesOn (dst src : List ℕ) : Prop :=
  ∀ tail, Other tail → scan dst (src ++ tail) =
    after (scan dst src).writes (scan (scan dst src).text tail)

/-- The scan goes on behind the next unit, at the beginning of the buffer. -/
def Skips (dst src : List ℕ) : Prop :=
  (scan dst src).text = [slash] ∧ ∀ tail, Other tail → scan dst (src ++ tail) =
    after (scan dst src).writes (scan [slash] (tail.drop 1))

theorem after_after (places places' : List ℕ) (e : Edit ℕ) :
    after places (after places' e) = after (places ++ places') e := by
  simp [after]

theorem ends_of_round {dst' src' : List ℕ} (places : List ℕ)
    (heq : ∀ tail, scan dst (src ++ tail) = after places (scan dst' (src' ++ tail)))
    (hle : dst'.length + src'.length ≤ dst.length + src.length)
    (h : StopsIn dst' src' ∨ GoesOn dst' src' ∨ Skips dst' src') :
    StopsIn dst src ∨ GoesOn dst src ∨ Skips dst src := by
  have hnil := heq []
  rw [List.append_nil, List.append_nil] at hnil
  rcases h with ⟨hlen, h⟩ | h | ⟨htext, h⟩
  · refine .inl ⟨?_, fun tail => ?_⟩
    · rw [hnil, after_text]
      exact hlen.trans_le hle
    · rw [heq, h, hnil]
  · refine .inr (.inl fun tail htail => ?_)
    rw [heq, h tail htail, hnil, after_after, after_writes, after_text]
  · refine .inr (.inr ⟨by rw [hnil, after_text, htext], fun tail htail => ?_⟩)
    rw [heq, h tail htail, hnil, after_after, after_writes]

/-- **Where the scan of a memory ends**: in it, or behind it. -/
theorem scan_append (dst src : List ℕ) : StopsIn dst src ∨ GoesOn dst src ∨ Skips dst src := by
  fun_induction scan dst src with
  | case1 dst => exact .inr (.inl fun tail _ => rfl)
  | case2 dst src =>
    refine .inl ⟨?_, fun tail => ?_⟩
    · rw [scan_zero]
      simp
    · rw [List.cons_append, scan_zero, scan_zero]
  | case3 dst u h0 hu ih =>
    obtain rfl := isDot_iff.1 hu
    have hcopy : ∀ tail, Other tail →
        scan dst (dot :: tail) = after [dst.length] (scan (dst ++ [dot]) tail) := by
      intro tail htail
      refine scan_dot ?_ fun hnext => ?_
      · cases htop : tail.head? with
        | none => rfl
        | some v => exact (htail v htop).1
      · exact absurd (htail dot hnext).2 (by decide)
    refine .inr (.inl fun tail htail => ?_)
    rw [List.singleton_append, hcopy tail htail,
      hcopy [] fun v hv => absurd hv (Option.not_mem_none v)]
    rfl
  | case4 dst u h0 hu v src hv ih =>
    obtain rfl := isDot_iff.1 hu
    refine ends_of_round [] (fun tail => ?_) ?_ ih
    · exact scan_dot_sep hv dst (src ++ tail)
    · simp only [List.length_cons]
      omega
  | case5 dst u h0 hu v src hv hup back hback ih =>
    obtain rfl := isDot_iff.1 hu
    obtain rfl := isDot_iff.1 hup.1
    refine ends_of_round [] (fun tail => ?_) ?_ ih
    · rw [List.cons_append, List.cons_append, scan_up hup.2, if_pos hback]
      rfl
    · simp only [List.length_cons, List.length_nil]
      omega
  | case6 dst u h0 hu v hv hup back hback dir hdir ih =>
    obtain rfl := isDot_iff.1 hu
    obtain rfl := isDot_iff.1 hup.1
    have hskip : ∀ tail, scan dst (dot :: dot :: tail) =
        after [back.length, 0] (scan [slash] (tail.drop 1)) := by
      intro tail
      rw [scan_up hup.2, if_neg hback, if_pos hdir]
    refine .inr (.inr ⟨by rw [hskip]; rfl, fun tail _ => ?_⟩)
    rw [List.cons_append, List.singleton_append, hskip, hskip]
    rfl
  | case7 dst u h0 hu v hv hup back hback dir hdir w src ih =>
    obtain rfl := isDot_iff.1 hu
    obtain rfl := isDot_iff.1 hup.1
    refine ends_of_round [back.length, 0] (fun tail => ?_) ?_ ih
    · rw [List.cons_append, List.cons_append, scan_up hup.2, if_neg hback, if_pos hdir]
      rfl
    · simp only [List.length_cons, List.length_nil]
      omega
  | case8 dst u h0 hu v src hv hup back hback dir hdir ih =>
    obtain rfl := isDot_iff.1 hu
    obtain rfl := isDot_iff.1 hup.1
    have hle : dir.length ≤ back.length := (List.rdropWhile_prefix _ back).length_le
    have hlen : back.length = dst.length - 1 := List.length_dropLast
    refine ends_of_round [back.length] (fun tail => ?_) ?_ ih
    · rw [List.cons_append, List.cons_append, scan_up hup.2, if_neg hback, if_neg hdir]
    · simp only [List.length_cons]
      omega
  | case9 dst u h0 hu v src hv hup ih =>
    obtain rfl := isDot_iff.1 hu
    refine ends_of_round [dst.length] (fun tail => ?_) ?_ ih
    · refine scan_dot (by simpa using hv) fun hnext => ?_
      obtain rfl : v = dot := Option.some_inj.1 hnext
      by_contra hlast
      exact hup ⟨isDot_iff.2 rfl, by simpa using hlast⟩
    · simp only [List.length_append, List.length_cons, List.length_nil]
      omega
  | case10 dst u src h0 hu hsep ih =>
    refine ends_of_round [dst.length] (fun tail => ?_) ?_ ih
    · exact scan_sep hsep dst (src ++ tail)
    · simp only [List.length_append, List.length_cons, List.length_nil]
      omega
  | case11 dst u src h0 hu hsep ih =>
    refine ends_of_round [dst.length] (fun tail => ?_) ?_ ih
    · exact scan_plain h0 (by simpa using hsep) (fun h => hu (isDot_iff.2 h)) dst (src ++ tail)
    · simp only [List.length_append, List.length_cons, List.length_nil]
      omega

end Canonicalize

end Shlwapi

end Swinx
