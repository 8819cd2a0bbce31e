import Swinx.Shlwapi.Path
import Swinx.Data.Uniconv

/-!
# Path helpers on bytes and on wide characters

The `A` forms work on UTF-8 and the `W` forms on wide characters.  A separator, a colon and a dot is
one unit in each, and no other character has a unit that is one of them, so the forms do the same to
the characters of a path.  One test is not about characters: a drive root is known by its separator
being the third *unit*, so `é:\x` has one for the `W` form and none for the `A` form.

* `Encodes.pathAppend`, `Encodes.pathRemoveFileSpec`, `Encodes.pathRenameExtension` — what the
  helpers do to the characters.
* `commutes_removeFileSpec_iff` — the forms agree if and only if there is no mismatch.
* `path_helpers_iff` — all this together.
-/

namespace Swinx

namespace Shlwapi

/-! ### An alphabet written in another -/

section

variable {γ α : Type} {C : Alphabet γ} {A : Alphabet α} {enc : γ → List α} {P : γ → Prop}

/-- **Characters of `C` are written in `A`**: a separator, a colon and a dot as one such unit, and
another character as units that are none of them. -/
structure Encodes (C : Alphabet γ) (A : Alphabet α) (enc : γ → List α) (P : γ → Prop) : Prop where
  cases : ∀ c, P c →
    (∃ u, enc c = [u] ∧ A.isSep u = C.isSep c ∧ A.isColon u = C.isColon c ∧
      A.isDot u = C.isDot c) ∨
    enc c ≠ [] ∧ C.isSep c = false ∧ C.isColon c = false ∧ C.isDot c = false ∧
      ∀ u ∈ enc c, A.isSep u = false ∧ A.isColon u = false ∧ A.isDot u = false
  backslash : enc C.backslash = [A.backslash]

/-- Two characters are a drive for a form in which the first is one unit. -/
def driveIn (C : Alphabet γ) (enc : γ → List α) : List γ → Bool
  | [x, y] => C.isColon y && (enc x).length == 1
  | _ => false

/-- The characters that `PathRemoveFileSpec` leaves when it works on the units of `enc`. -/
def removedIn (C : Alphabet γ) (enc : γ → List α) (cs : List γ) : List γ :=
  let text := cs.rdropWhile C.isSep
  match scanBack C text text.length with
  | none => text
  | some p => if driveIn C enc (text.take p) then text.take (p + 1) else text.take p

theorem removedIn_none (enc : γ → List α) {cs : List γ} (h : NoSep C (cs.rdropWhile C.isSep)) :
    removedIn C enc cs = cs.rdropWhile C.isSep := by
  simp only [removedIn, scanBack_none h]

theorem removedIn_some (enc : γ → List α) {cs u v : List γ} {s : γ} (hs : C.isSep s = true)
    (hv : NoSep C v) (h : cs.rdropWhile C.isSep = u ++ s :: v) :
    removedIn C enc cs = if driveIn C enc u then u ++ [s] else u := by
  simp only [removedIn, h, scanBack_some hs hv, List.take_left]
  rw [List.take_append, List.take_of_length_le (Nat.le_succ _), Nat.add_sub_cancel_left]
  rfl

namespace Encodes

variable (E : Encodes C A enc P) {c : γ} {cs ds : List γ}

include E

theorem ne_nil (hc : P c) : enc c ≠ [] := by
  rcases E.cases c hc with ⟨u, hu, -⟩ | ⟨hne, -⟩
  · rw [hu]
    exact List.cons_ne_nil u []
  · exact hne

theorem sep (hc : P c) (hs : C.isSep c = true) : ∃ u, enc c = [u] ∧ A.isSep u = true := by
  rcases E.cases c hc with ⟨u, hu, hsep, -⟩ | ⟨-, hno, -⟩
  · exact ⟨u, hu, hsep.trans hs⟩
  · rw [hs] at hno
    cases hno

theorem noSep_char (hc : P c) (hs : C.isSep c = false) : NoSep A (enc c) := by
  intro u hu
  rcases E.cases c hc with ⟨v, hv, hsep, -⟩ | ⟨-, -, -, -, hall⟩
  · rw [hv] at hu
    rw [List.mem_singleton.1 hu, hsep, hs]
  · exact (hall u hu).1

theorem noSep (hcs : ∀ c ∈ cs, P c) (h : NoSep C cs) : NoSep A (cs.flatMap enc) := by
  intro u hu
  obtain ⟨c, hc, hu⟩ := List.mem_flatMap.1 hu
  exact E.noSep_char (hcs c hc) (h c hc) u hu

theorem rdropWhile (hcs : ∀ c ∈ cs, P c) :
    (cs.flatMap enc).rdropWhile A.isSep = (cs.rdropWhile C.isSep).flatMap enc := by
  induction cs using List.reverseRecOn with
  | nil => rfl
  | append_singleton cs c ih =>
    have hc := hcs c (by simp)
    have ih := ih fun d hd => hcs d (List.mem_append_left _ hd)
    rw [List.flatMap_append, List.flatMap_singleton]
    cases hs : C.isSep c with
    | true =>
      obtain ⟨u, hu, hsep⟩ := E.sep hc hs
      rw [hu, List.rdropWhile_concat_pos A.isSep _ u hsep, ih,
        List.rdropWhile_concat_pos C.isSep _ c hs]
    | false =>
      rw [rdropWhile_append (E.noSep_char hc hs) (E.ne_nil hc),
        List.rdropWhile_concat_neg C.isSep _ c (by rw [hs]; exact Bool.false_ne_true),
        List.flatMap_append, List.flatMap_singleton]

/-! ### Appending -/

theorem getLast? (hcs : ∀ c ∈ cs, P c) :
    (cs.flatMap enc).getLast?.map A.isSep = cs.getLast?.map C.isSep := by
  rcases List.eq_nil_or_concat cs with rfl | ⟨cs, c, rfl⟩
  · rfl
  · have hc := hcs c (by simp)
    rw [List.concat_eq_append, List.flatMap_append, List.flatMap_singleton, List.getLast?_concat]
    rcases E.cases c hc with ⟨u, hu, hsep, -⟩ | ⟨hne, hno, -, -, hall⟩
    · rw [hu, List.getLast?_concat, Option.map_some, Option.map_some, hsep]
    · rw [List.getLast?_append_of_ne_nil _ hne, List.getLast?_eq_getLast_of_ne_nil hne,
        Option.map_some, Option.map_some, (hall _ (List.getLast_mem hne)).1, hno]

theorem head? (hcs : ∀ c ∈ cs, P c) :
    (cs.flatMap enc).head?.map A.isSep = cs.head?.map C.isSep := by
  cases cs with
  | nil => rfl
  | cons c cs =>
    have hc := hcs c List.mem_cons_self
    rw [List.flatMap_cons, List.head?_cons]
    rcases E.cases c hc with ⟨u, hu, hsep, -⟩ | ⟨hne, hno, -, -, hall⟩
    · rw [hu, List.singleton_append, List.head?_cons, Option.map_some, Option.map_some, hsep]
    · obtain ⟨u, us, hu⟩ := List.exists_cons_of_ne_nil hne
      have hsep := (hall u (hu ▸ List.mem_cons_self)).1
      rw [hu, List.cons_append, List.head?_cons, Option.map_some, Option.map_some, hsep, hno]

theorem joint (hcs : ∀ c ∈ cs, P c) (hds : ∀ c ∈ ds, P c) :
    joint A (cs.flatMap enc) (ds.flatMap enc) = (joint C cs ds).flatMap enc := by
  have hadd : addSep A (cs.flatMap enc) (ds.flatMap enc) = addSep C cs ds := by
    have hlast := E.getLast? hcs
    have hhead := E.head? hds
    unfold addSep
    cases h₁ : cs.getLast? <;> cases h₂ : (cs.flatMap enc).getLast? <;>
      cases h₃ : ds.head? <;> cases h₄ : (ds.flatMap enc).head? <;>
      rw [h₁, h₂] at hlast <;> rw [h₃, h₄] at hhead <;> simp_all
  unfold Shlwapi.joint
  rw [hadd]
  split_ifs
  · rw [List.flatMap_singleton, E.backslash]
  · rfl

/-- **A component is appended to the characters.** -/
theorem pathAppend (hcs : ∀ c ∈ cs, P c) (hds : ∀ c ∈ ds, P c)
    (hlen : ((cs ++ Shlwapi.joint C cs ds ++ ds).flatMap enc).length < MAX_PATH) :
    (pathAppend A (cs.flatMap enc) (ds.flatMap enc)).ret = true ∧
      (pathAppend A (cs.flatMap enc) (ds.flatMap enc)).text =
        (cs ++ Shlwapi.joint C cs ds ++ ds).flatMap enc := by
  have hjoint := E.joint hcs hds
  rw [List.flatMap_append, List.flatMap_append, List.length_append, List.length_append] at hlen
  unfold Shlwapi.pathAppend
  rw [hjoint, if_neg (not_le.2 hlen), List.flatMap_append, List.flatMap_append]
  exact ⟨rfl, rfl⟩

/-! ### Removing the last component -/

theorem length_pos (hc : P c) : 0 < (enc c).length := List.length_pos_iff.2 (E.ne_nil hc)

theorem colon_singleton {u : α} (hc : P c) (h : enc c = [u]) : A.isColon u = C.isColon c := by
  rcases E.cases c hc with ⟨v, hv, -, hcolon, -⟩ | ⟨-, -, hno, -, hall⟩
  · rw [h] at hv
    rw [List.singleton_inj.1 hv, hcolon]
  · rw [hno, (hall u (h ▸ List.mem_cons_self)).2.1]

theorem drive_iff (hcs : ∀ c ∈ cs, P c) :
    (cs.flatMap enc).length = 2 ∧ (cs.flatMap enc)[1]?.any A.isColon = true ↔
      driveIn C enc cs = true := by
  rcases cs with _ | ⟨x, _ | ⟨y, _ | ⟨z, cs⟩⟩⟩
  · simp [driveIn]
  · -- The second unit of one character is no colon.
    refine iff_of_false ?_ Bool.false_ne_true
    rw [List.flatMap_singleton]
    rintro ⟨hlen, hcolon⟩
    rcases E.cases x (hcs x List.mem_cons_self) with ⟨u, hu, -⟩ | ⟨-, -, -, -, hall⟩
    · rw [hu] at hlen
      cases hlen
    · obtain ⟨u, v, huv⟩ := List.length_eq_two.1 hlen
      have hv := (hall v (by rw [huv]; simp)).2.1
      rw [huv] at hcolon
      simp [hv] at hcolon
  · have hx := hcs x List.mem_cons_self
    have hy := hcs y (by simp)
    have hxpos := E.length_pos hx
    have hypos := E.length_pos hy
    rw [List.flatMap_cons, List.flatMap_singleton, List.length_append]
    simp only [driveIn, Bool.and_eq_true, beq_iff_eq]
    constructor
    · rintro ⟨hlen, hcolon⟩
      obtain ⟨u, hu⟩ := List.length_eq_one_iff.1 (by omega : (enc x).length = 1)
      obtain ⟨v, hv⟩ := List.length_eq_one_iff.1 (by omega : (enc y).length = 1)
      rw [hu, hv] at hcolon
      exact ⟨by rw [← E.colon_singleton hy hv]; simpa using hcolon, by rw [hu]; rfl⟩
    · rintro ⟨hcolon, hone⟩
      obtain ⟨u, hu⟩ := List.length_eq_one_iff.1 hone
      rcases E.cases y hy with ⟨v, hv, -, hvcolon, -⟩ | ⟨-, -, hno, -⟩
      · rw [hu, hv]
        exact ⟨rfl, by simpa using hvcolon.trans hcolon⟩
      · rw [hno] at hcolon
        cases hcolon
  · have hx := E.length_pos (hcs x List.mem_cons_self)
    have hy := E.length_pos (hcs y (by simp))
    have hz := E.length_pos (hcs z (by simp))
    refine iff_of_false ?_ Bool.false_ne_true
    rintro ⟨hlen, -⟩
    simp only [List.flatMap_cons, List.length_append] at hlen
    omega

/-- **The last component of the characters is removed.** -/
theorem pathRemoveFileSpec (hcs : ∀ c ∈ cs, P c) :
    (pathRemoveFileSpec A (cs.flatMap enc)).ret = (pathRemoveFileSpec C cs).ret ∧
      (pathRemoveFileSpec A (cs.flatMap enc)).text = (removedIn C enc cs).flatMap enc := by
  have hcut := E.rdropWhile hcs
  have hmem : ∀ c ∈ cs.rdropWhile C.isSep, P c := fun c hc =>
    hcs c ((List.rdropWhile_prefix C.isSep cs).mem hc)
  rcases noSep_or_last (A := C) (cs.rdropWhile C.isSep) with h | ⟨u, s, v, hs, hv, heq⟩
  · have hunits : NoSep A ((cs.flatMap enc).rdropWhile A.isSep) := hcut ▸ E.noSep hmem h
    obtain ⟨hret, htext⟩ := pathRemoveFileSpec_none hunits
    obtain ⟨hret', htext'⟩ := pathRemoveFileSpec_none h
    rw [removedIn_none enc h, hret, hret', htext, hcut]
    exact ⟨rfl, rfl⟩
  · rw [heq] at hmem hcut
    have hu : ∀ c ∈ u, P c := fun c hc => hmem c (List.mem_append_left _ hc)
    obtain ⟨t, ht, htsep⟩ := E.sep (hmem s (by simp)) hs
    have hvs : NoSep A (v.flatMap enc) := E.noSep (fun c hc => hmem c (by simp [hc])) hv
    rw [List.flatMap_append, List.flatMap_cons, ht, List.singleton_append] at hcut
    obtain ⟨hret, htext⟩ := pathRemoveFileSpec_some htsep hvs hcut
    obtain ⟨hret', -⟩ := pathRemoveFileSpec_some hs hv heq
    rw [removedIn_some enc hs hv heq, hret, hret', htext]
    refine ⟨rfl, ?_⟩
    unfold directory
    rw [if_congr (E.drive_iff hu) rfl rfl]
    split_ifs
    · rw [List.flatMap_append, List.flatMap_singleton, ht]
    · rfl

/-! ### The extension -/

theorem before (hcs : ∀ c ∈ cs, P c) (h : Before C cs) : Before A (cs.flatMap enc) := by
  rcases h with rfl | ⟨w, s, hs, rfl⟩
  · exact .inl rfl
  · obtain ⟨t, ht, htsep⟩ := E.sep (hcs s (by simp)) hs
    exact .inr ⟨w.flatMap enc, t, htsep, by rw [List.flatMap_append, List.flatMap_singleton, ht]⟩

theorem noDot (hcs : ∀ c ∈ cs, P c) (h : ∀ c ∈ cs, C.isDot c = false) :
    ∀ u ∈ cs.flatMap enc, A.isDot u = false := by
  intro u hu
  obtain ⟨c, hc, hu⟩ := List.mem_flatMap.1 hu
  rcases E.cases c (hcs c hc) with ⟨v, hv, -, -, hdot⟩ | ⟨-, -, -, -, hall⟩
  · rw [hv] at hu
    rw [List.mem_singleton.1 hu, hdot, h c hc]
  · exact (hall u hu).2.2

theorem dot (hc : P c) (hd : C.isDot c = true) : ∃ u, enc c = [u] ∧ A.isDot u = true := by
  rcases E.cases c hc with ⟨u, hu, -, -, hdot⟩ | ⟨-, -, -, hno, -⟩
  · exact ⟨u, hu, hdot.trans hd⟩
  · rw [hd] at hno
    cases hno

theorem dotAt (hcs : ∀ c ∈ cs, P c) :
    dotAt A (cs.flatMap enc) = ((cs.take (dotAt C cs)).flatMap enc).length ∧
      (cs.flatMap enc).take (dotAt A (cs.flatMap enc)) =
        (cs.take (dotAt C cs)).flatMap enc := by
  suffices h : ∃ stem rest, cs = stem ++ rest ∧ Shlwapi.dotAt C cs = stem.length ∧
      Shlwapi.dotAt A (cs.flatMap enc) = (stem.flatMap enc).length by
    obtain ⟨stem, rest, rfl, hC, hA⟩ := h
    rw [hC, hA, List.take_left, List.flatMap_append, List.take_left]
    exact ⟨rfl, rfl⟩
  obtain ⟨u, v, hu, hv, rfl, hdots⟩ := component_cases (A := C) cs
  have hPu : ∀ c ∈ u, P c := fun c hc => hcs c (List.mem_append_left _ hc)
  have hPv : ∀ c ∈ v, P c := fun c hc => hcs c (List.mem_append_right _ hc)
  have hu' := E.before hPu hu
  have hv' := E.noSep hPv hv
  rcases hdots with hno | ⟨a, d, b, rfl, ha, hd⟩
  · refine ⟨u ++ v, [], (List.append_nil _).symm, dotAt_none hu hv hno, ?_⟩
    rw [List.flatMap_append, dotAt_none hu' hv' (E.noDot hPv hno)]
  · refine ⟨u ++ a, d :: b, (List.append_assoc _ _ _).symm, dotAt_some hu hv ha hd, ?_⟩
    obtain ⟨t, ht, htdot⟩ := E.dot (hPv d (by simp)) hd
    have ha' := E.noDot (fun c hc => hPv c (List.mem_append_left _ hc)) ha
    rw [List.flatMap_append, List.flatMap_cons, ht, List.singleton_append] at hv'
    rw [List.flatMap_append, List.flatMap_append, List.flatMap_cons, ht, List.singleton_append,
      dotAt_some hu' hv' ha' htdot, List.flatMap_append]

/-- **The extension of the characters is replaced.** -/
theorem pathRenameExtension (hcs : ∀ c ∈ cs, P c)
    (hlen : ((cs.take (Shlwapi.dotAt C cs) ++ ds).flatMap enc).length < MAX_PATH) :
    (pathRenameExtension A (cs.flatMap enc) (ds.flatMap enc)).ret = true ∧
      (pathRenameExtension A (cs.flatMap enc) (ds.flatMap enc)).text =
        (cs.take (Shlwapi.dotAt C cs) ++ ds).flatMap enc := by
  obtain ⟨hat, htake⟩ := E.dotAt hcs
  rw [List.flatMap_append, List.length_append, ← hat] at hlen
  unfold Shlwapi.pathRenameExtension
  rw [if_neg (not_le.2 hlen), htake, List.flatMap_append]
  exact ⟨rfl, rfl⟩

end Encodes

end

/-! ### Bytes and wide characters -/

/-- Bytes of UTF-8. -/
def bytes : Alphabet UInt8 where
  isSep u := u == 0x5C || u == 0x2F
  isColon u := u == 0x3A
  isDot u := u == 0x2E
  backslash := 0x5C
  isSep_backslash := rfl
  isColon_of_isSep := by
    intro u h
    rcases Bool.or_eq_true_iff.1 h with h | h <;> rw [eq_of_beq h] <;> rfl

/-- Wide characters, and the characters themselves. -/
def units : Alphabet ℕ where
  isSep u := u == 0x5C || u == 0x2F
  isColon u := u == 0x3A
  isDot u := u == 0x2E
  backslash := 0x5C
  isSep_backslash := rfl
  isColon_of_isSep := by
    intro u h
    rcases Bool.or_eq_true_iff.1 h with h | h <;> rw [eq_of_beq h] <;> rfl

def PathAppendA := pathAppend bytes

def PathAppendW := pathAppend units

def PathRemoveFileSpecA := pathRemoveFileSpec bytes

def PathRemoveFileSpecW := pathRemoveFileSpec units

def PathRenameExtensionA := pathRenameExtension bytes

def PathRenameExtensionW := pathRenameExtension units

open Uniconv

theorem beq_of_toNat {b k : UInt8} {c : ℕ} (h : b.toNat = c) : (b == k) = (c == k.toNat) := by
  rw [Bool.eq_iff_iff, beq_iff_eq, beq_iff_eq, ← UInt8.toNat_inj, h]

/-- A character that is not ASCII has more than one byte, and none of them is ASCII. -/
theorem utf8_high {c : ℕ} (hc : Scalar c) (h : 0x80 ≤ c) :
    1 < (utf8 c).length ∧ ∀ b ∈ utf8 c, 0x80 ≤ b.toNat := by
  have hlt := hc.lt
  unfold utf8
  rw [if_neg (not_lt.2 h)]
  split_ifs with h2 h3
  · obtain ⟨b₀, b₁, he, hb₀, hb₁⟩ := utf8Two_eq h2
    rw [he]
    simp only [List.length_cons, List.length_nil, List.forall_mem_cons, hb₀, hb₁]
    refine ⟨by omega, by omega, by omega, fun b hb => absurd hb List.not_mem_nil⟩
  · obtain ⟨b₀, b₁, b₂, he, hb₀, hb₁, hb₂⟩ := utf8Three_eq h3
    rw [he]
    simp only [List.length_cons, List.length_nil, List.forall_mem_cons, hb₀, hb₁, hb₂]
    refine ⟨by omega, by omega, by omega, by omega, fun b hb => absurd hb List.not_mem_nil⟩
  · obtain ⟨b₀, b₁, b₂, b₃, he, hb₀, hb₁, hb₂, hb₃⟩ := utf8Four_eq (c := c) (by omega)
    rw [he]
    simp only [List.length_cons, List.length_nil, List.forall_mem_cons, hb₀, hb₁, hb₂, hb₃]
    refine ⟨by omega, by omega, by omega, by omega, by omega,
      fun b hb => absurd hb List.not_mem_nil⟩

theorem length_utf8_eq_one {c : ℕ} (hc : Scalar c) : (utf8 c).length = 1 ↔ c < 0x80 := by
  constructor
  · intro h
    by_contra hge
    exact absurd (utf8_high hc (not_lt.1 hge)).1 (by omega)
  · intro h
    obtain ⟨b, hb, -⟩ := utf8One_eq h
    rw [utf8, if_pos h, hb]
    rfl

/-- A unit that is not ASCII is none of those that are asked for. -/
theorem units_high {u : ℕ} (h : 0x80 ≤ u) :
    units.isSep u = false ∧ units.isColon u = false ∧ units.isDot u = false := by
  have hne : ∀ k < 0x80, (u == k) = false := fun k hk => beq_eq_false_iff_ne.2 (by omega)
  refine ⟨?_, hne 0x3A (by decide), hne 0x2E (by decide)⟩
  change (u == 0x5C || u == 0x2F) = false
  rw [hne 0x5C (by decide), hne 0x2F (by decide)]
  rfl

theorem bytes_eq {b : UInt8} {c : ℕ} (h : b.toNat = c) :
    bytes.isSep b = units.isSep c ∧ bytes.isColon b = units.isColon c ∧
      bytes.isDot b = units.isDot c := by
  refine ⟨?_, beq_of_toNat h, beq_of_toNat h⟩
  change (b == 0x5C || b == 0x2F) = (c == 0x5C || c == 0x2F)
  rw [beq_of_toNat h, beq_of_toNat h]
  rfl

/-- **UTF-8 keeps the units that are asked for.** -/
theorem encodes_utf8 : Encodes units bytes utf8 Scalar where
  backslash := rfl
  cases c hc := by
    by_cases h : c < 0x80
    · obtain ⟨b, hb, hc⟩ := utf8One_eq h
      exact .inl ⟨b, by rw [utf8, if_pos h, hb], bytes_eq hc⟩
    · obtain ⟨hlen, hall⟩ := utf8_high hc (not_lt.1 h)
      obtain ⟨hsep, hcolon, hdot⟩ := units_high (not_lt.1 h)
      refine .inr ⟨?_, hsep, hcolon, hdot, fun b hb => ?_⟩
      · exact List.length_pos_iff.1 (by omega)
      · obtain ⟨hs, hk, hd⟩ := bytes_eq (b := b) rfl
        rw [hs, hk, hd]
        exact units_high (hall b hb)

/-- **Wide characters keep the units that are asked for.** -/
theorem encodes_wide (wide : Wide) : Encodes units units wide.encode Scalar where
  backslash := by cases wide <;> rfl
  cases c hc := by
    cases wide with
    | utf32 => exact .inl ⟨c, rfl, rfl, rfl, rfl⟩
    | utf16 =>
      by_cases h : c < 0x10000
      · exact .inl ⟨c, by rw [Wide.encode, if_pos h], rfl, rfl, rfl⟩
      · obtain ⟨hsep, hcolon, hdot⟩ := units_high (u := c) (by omega)
        refine .inr ⟨?_, hsep, hcolon, hdot, ?_⟩
        · rw [Wide.encode, if_neg h]
          exact List.cons_ne_nil _ _
        · rw [Wide.encode, if_neg h]
          refine List.forall_mem_cons.2 ⟨units_high (by omega), List.forall_mem_cons.2
            ⟨units_high (by omega), fun u hu => absurd hu List.not_mem_nil⟩⟩

/-! ### The forms agree -/

/-- **The `W` form does to the converted path what the `A` form does to the path.** -/
def Commutes (wide : Wide) (a : Edit UInt8) (w : Edit ℕ) : Prop :=
  a.ret = w.ret ∧ ∀ past, towstring wide past a.text = w.text ++ [0]

/-- Characters are short enough for a buffer in both forms. -/
def Fits (wide : Wide) (cs : List ℕ) : Prop :=
  (utf8Text cs).length < MAX_PATH ∧ (wide.text cs).length < MAX_PATH

/-- **The forms differ about a drive root**: behind `x:` is the last separator, and `x` is one wide
character but more than one byte. -/
def Mismatch (wide : Wide) (cs : List ℕ) : Prop :=
  ∃ x y s v, cs.rdropWhile units.isSep = [x, y] ++ s :: v ∧ units.isColon y = true ∧
    units.isSep s = true ∧ NoSep units v ∧ 0x80 ≤ x ∧ (wide.encode x).length = 1

variable {wide : Wide} {cs ds : List ℕ}

theorem commutes_of_text {a : Edit UInt8} {w : Edit ℕ} (hcs : ∀ c ∈ cs, Scalar c)
    (hret : a.ret = w.ret) (ha : a.text = utf8Text cs) (hw : w.text = wide.text cs) :
    Commutes wide a w :=
  ⟨hret, fun past => by rw [ha, hw, towstring_text wide past hcs]⟩

theorem scalar_joint : ∀ c ∈ joint units cs ds, Scalar c := by
  unfold joint
  split_ifs
  · exact List.forall_mem_singleton.2 (.inl (by decide))
  · exact fun c hc => absurd hc List.not_mem_nil

theorem commutes_append (hcs : ∀ c ∈ cs, Scalar c) (hds : ∀ c ∈ ds, Scalar c)
    (hfits : Fits wide (cs ++ joint units cs ds ++ ds)) :
    Commutes wide (PathAppendA (utf8Text cs) (utf8Text ds))
      (PathAppendW (wide.text cs) (wide.text ds)) := by
  obtain ⟨hretA, htextA⟩ := encodes_utf8.pathAppend hcs hds hfits.1
  obtain ⟨hretW, htextW⟩ := (encodes_wide wide).pathAppend hcs hds hfits.2
  have hall : ∀ c ∈ cs ++ joint units cs ds ++ ds, Scalar c :=
    List.forall_mem_append.2 ⟨List.forall_mem_append.2 ⟨hcs, scalar_joint⟩, hds⟩
  exact commutes_of_text hall (hretA.trans hretW.symm) htextA htextW

theorem commutes_rename (hcs : ∀ c ∈ cs, Scalar c) (hds : ∀ c ∈ ds, Scalar c)
    (hfits : Fits wide (cs.take (dotAt units cs) ++ ds)) :
    Commutes wide (PathRenameExtensionA (utf8Text cs) (utf8Text ds))
      (PathRenameExtensionW (wide.text cs) (wide.text ds)) := by
  obtain ⟨hretA, htextA⟩ := encodes_utf8.pathRenameExtension hcs hfits.1
  obtain ⟨hretW, htextW⟩ := (encodes_wide wide).pathRenameExtension hcs hfits.2
  have hall : ∀ c ∈ cs.take (dotAt units cs) ++ ds, Scalar c :=
    List.forall_mem_append.2 ⟨fun c hc => hcs c (List.mem_of_mem_take hc), hds⟩
  exact commutes_of_text hall (hretA.trans hretW.symm) htextA htextW

/-- The drive of the one form is that of the other but for a mismatch. -/
theorem driveIn_ne_iff {u : List ℕ} (hu : ∀ c ∈ u, Scalar c) :
    driveIn units utf8 u ≠ driveIn units wide.encode u ↔
      ∃ x y, u = [x, y] ∧ units.isColon y = true ∧ 0x80 ≤ x ∧ (wide.encode x).length = 1 := by
  rcases u with _ | ⟨x, _ | ⟨y, _ | ⟨z, u⟩⟩⟩
  · simp [driveIn]
  · simp [driveIn]
  · have hone := length_utf8_eq_one (hu x List.mem_cons_self)
    have hlow : x < 0x80 → (wide.encode x).length = 1 := by
      intro h
      cases wide with
      | utf32 => rfl
      | utf16 =>
        rw [Wide.encode, if_pos (by omega)]
        rfl
    have hiff : driveIn units utf8 [x, y] ≠ driveIn units wide.encode [x, y] ↔
        units.isColon y = true ∧ 0x80 ≤ x ∧ (wide.encode x).length = 1 := by
      rw [ne_eq, Bool.eq_iff_iff]
      simp only [driveIn, Bool.and_eq_true, beq_iff_eq, hone]
      constructor
      · intro h
        by_contra hno
        refine h ⟨fun hlt => ⟨hlt.1, hlow hlt.2⟩, fun hlen => ⟨hlen.1, ?_⟩⟩
        by_contra hge
        exact hno ⟨hlen.1, not_lt.1 hge, hlen.2⟩
      · rintro ⟨hc, hge, hx⟩ h
        exact absurd (h.2 ⟨hc, hx⟩).2 (not_lt.2 hge)
    rw [hiff]
    constructor
    · exact fun h => ⟨x, y, rfl, h⟩
    · rintro ⟨x', y', heq, h⟩
      obtain ⟨rfl, rfl⟩ : x = x' ∧ y = y' := by simpa using heq
      exact h
  · simp [driveIn]

/-- **`PathRemoveFileSpec` does the same in both forms** if and only if they agree about a drive
root. -/
theorem commutes_removeFileSpec_iff (hcs : ∀ c ∈ cs, Scalar c) :
    Commutes wide (PathRemoveFileSpecA (utf8Text cs)) (PathRemoveFileSpecW (wide.text cs)) ↔
      ¬ Mismatch wide cs := by
  obtain ⟨hretA, htextA⟩ := encodes_utf8.pathRemoveFileSpec hcs
  obtain ⟨hretW, htextW⟩ := (encodes_wide wide).pathRemoveFileSpec hcs
  have hmem : ∀ c ∈ cs.rdropWhile units.isSep, Scalar c := fun c hc =>
    hcs c ((List.rdropWhile_prefix units.isSep cs).mem hc)
  have hsame : ∀ {ds}, (∀ c ∈ ds, Scalar c) → removedIn units utf8 cs = ds →
      removedIn units wide.encode cs = ds →
      Commutes wide (PathRemoveFileSpecA (utf8Text cs)) (PathRemoveFileSpecW (wide.text cs)) :=
    fun hds hA hW => commutes_of_text hds (hretA.trans hretW.symm) (hA ▸ htextA) (hW ▸ htextW)
  rcases noSep_or_last (A := units) (cs.rdropWhile units.isSep) with h | ⟨u, s, v, hs, hv, heq⟩
  · refine iff_of_true (hsame hmem (removedIn_none utf8 h) (removedIn_none wide.encode h)) ?_
    rintro ⟨x, y, s, v, heq, -, hs, -⟩
    rw [h s (by rw [heq]; simp)] at hs
    cases hs
  · rw [heq] at hmem
    have hu : ∀ c ∈ u, Scalar c := fun c hc => hmem c (List.mem_append_left _ hc)
    have hus : ∀ c ∈ u ++ [s], Scalar c :=
      List.forall_mem_append.2 ⟨hu, List.forall_mem_singleton.2 (hmem s (by simp))⟩
    have hA := removedIn_some utf8 hs hv heq
    have hW := removedIn_some wide.encode hs hv heq
    have hmismatch : Mismatch wide cs ↔ driveIn units utf8 u ≠ driveIn units wide.encode u := by
      rw [driveIn_ne_iff hu, Mismatch]
      constructor
      · rintro ⟨x, y, s', v', heq', hy, hs', hv', hx⟩
        exact ⟨x, y, last_unique hs hv hs' hv' (heq.symm.trans heq'), hy, hx⟩
      · rintro ⟨x, y, rfl, hy, hx⟩
        exact ⟨x, y, s, v, heq, hy, hs, hv, hx⟩
    rw [hmismatch, not_not]
    constructor
    · rintro ⟨-, h⟩
      -- The separator makes one of the texts longer.
      have htext := h 0
      by_contra hne
      have hspos := (encodes_wide wide).length_pos (hmem s (by simp))
      have hA' : ∀ {ds}, (∀ c ∈ ds, Scalar c) → removedIn units utf8 cs = ds →
          wide.text ds = wide.text (removedIn units wide.encode cs) := by
        intro ds hds hds'
        have ha : (PathRemoveFileSpecA (utf8Text cs)).text = utf8Text ds := hds' ▸ htextA
        rw [ha, towstring_text wide 0 hds] at htext
        exact (List.append_left_inj _).1 (htext.trans (congrArg (· ++ [0]) htextW))
      cases hdA : driveIn units utf8 u <;> cases hdW : driveIn units wide.encode u <;>
        rw [hdA] at hA <;> rw [hdW] at hW
      · exact hne (hdA.trans hdW.symm)
      · have := congrArg List.length (hA' hu hA)
        rw [hW] at this
        simp only [if_true, Wide.text, List.flatMap_append, List.flatMap_singleton,
          List.length_append] at this
        omega
      · have := congrArg List.length (hA' hus hA)
        rw [hW] at this
        simp only [Bool.false_eq_true, if_false, Wide.text, List.flatMap_append,
          List.flatMap_singleton, List.length_append] at this
        omega
      · exact hne (hdA.trans hdW.symm)
    · intro hd
      rw [hd] at hA
      cases hdW : driveIn units wide.encode u <;> rw [hdW] at hA hW
      · exact hsame hu hA hW
      · exact hsame hus hA hW

/-! ### The helpers -/

/-- **What the helpers do to the strings of one alphabet**: when an appended component is removed
again, when a call that returns `FALSE` leaves the string, and where they write. -/
structure Helpers {α : Type} (A : Alphabet α) (append rename : List α → List α → Edit α)
    (remove : List α → Edit α) : Prop where
  restored : ∀ path more, more ≠ [] → NoSep A more →
    path.length + (joint A path more).length + more.length < MAX_PATH →
    ((remove (append path more).text).text = trimmed A path ↔ Restored A path)
  unchanged : ∀ path, ((remove path).ret = false → (remove path).text = path) ↔
    path.rdropWhile A.isSep = path ∨ ¬ NoSep A (path.rdropWhile A.isSep)
  unchanged_rename : ∀ path ext, (rename path ext).ret = false → (rename path ext).text = path
  inside : ∀ path more, path.length < MAX_PATH →
    ∀ i ∈ (append path more).writes ++ (rename path more).writes ++ (remove path).writes,
      i < MAX_PATH

theorem helpers {α : Type} (A : Alphabet α) :
    Helpers A (pathAppend A) (pathRenameExtension A) (pathRemoveFileSpec A) where
  restored _ _ hne hmore hlen := removeFileSpec_append_iff hmore hne hlen
  unchanged := unchanged_iff
  unchanged_rename := pathRenameExtension_unchanged
  inside path more hlen i hi := by
    rcases List.mem_append.1 hi with hi | hi
    · rcases List.mem_append.1 hi with hi | hi
      · exact pathAppend_inside path more i hi
      · exact pathRenameExtension_inside path more i hi
    · exact pathRemoveFileSpec_inside hlen i hi

/-- **The path helpers**: in both forms an appended component is removed again if and only if the
path is one that is restored, `PathRemoveFileSpec` leaves the string when it returns `FALSE` if and
only if there are no trailing separators or there is another one, and nothing is written from
`MAX_PATH` on; the forms agree on valid text, `PathRemoveFileSpec` if and only if they agree about a
drive root. -/
theorem path_helpers_iff (wide : Wide) :
    Helpers bytes PathAppendA PathRenameExtensionA PathRemoveFileSpecA ∧
    Helpers units PathAppendW PathRenameExtensionW PathRemoveFileSpecW ∧
    ∀ cs, (∀ c ∈ cs, Scalar c) →
      (∀ ds, (∀ c ∈ ds, Scalar c) →
        (Fits wide (cs ++ joint units cs ds ++ ds) →
          Commutes wide (PathAppendA (utf8Text cs) (utf8Text ds))
            (PathAppendW (wide.text cs) (wide.text ds))) ∧
        (Fits wide (cs.take (dotAt units cs) ++ ds) →
          Commutes wide (PathRenameExtensionA (utf8Text cs) (utf8Text ds))
            (PathRenameExtensionW (wide.text cs) (wide.text ds)))) ∧
      (Commutes wide (PathRemoveFileSpecA (utf8Text cs)) (PathRemoveFileSpecW (wide.text cs)) ↔
        ¬ Mismatch wide cs) :=
  ⟨helpers bytes, helpers units, fun _ hcs =>
    ⟨fun _ hds => ⟨commutes_append hcs hds, commutes_rename hcs hds⟩,
      commutes_removeFileSpec_iff hcs⟩⟩

/-- `x` appended to `a\\` leaves `a\`, and to `C:` it leaves `C:\`; `PathRemoveFileSpec` of `a\`
returns `FALSE` and leaves `a`; and of `é:\x` it leaves `é:` in one form and `é:\` in the other. -/
theorem removeFileSpec_differs :
    (PathRemoveFileSpecA (PathAppendA [0x61, 0x5C, 0x5C] [0x78]).text).text ≠
      trimmed bytes [0x61, 0x5C, 0x5C] ∧
    (PathRemoveFileSpecA (PathAppendA [0x43, 0x3A] [0x78]).text).text ≠
      trimmed bytes [0x43, 0x3A] ∧
    ((PathRemoveFileSpecA [0x61, 0x5C]).ret = false ∧
      (PathRemoveFileSpecA [0x61, 0x5C]).text ≠ [0x61, 0x5C]) ∧
    ((PathRemoveFileSpecW [0x61, 0x5C]).ret = false ∧
      (PathRemoveFileSpecW [0x61, 0x5C]).text ≠ [0x61, 0x5C]) ∧
    ¬ Commutes .utf32 (PathRemoveFileSpecA (utf8Text [0xE9, 0x3A, 0x5C, 0x78]))
      (PathRemoveFileSpecW (Wide.utf32.text [0xE9, 0x3A, 0x5C, 0x78])) := by
  refine ⟨by decide, by decide, by decide, by decide, ?_⟩
  rintro ⟨-, h⟩
  exact absurd (h 0) (by decide)

end Shlwapi

end Swinx
