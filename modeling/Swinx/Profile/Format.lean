import Swinx.Data.Lines
import Mathlib.Data.List.Chain
import Mathlib.Data.List.Basic

/-!
# Profile files

A profile is a list of sections with a list of keys each.  `PROFILE_Load` reads it from a text, line
by line: a line in brackets begins a section, any other one is a key, with a value when there is a
`=`.  `PROFILE_Save` writes it.  The section in front of the first header has no name, and a section
without a name is written without a header.

Here a text is what a file holds once it is decoded.

* `clean_load` — a tree that was loaded from a text without NUL is clean.
* `loadText_saveText_iff` — a text is read back once it was read and written if and only if every
  header has a name.
* `length_build_le` — a tree is not longer than the lines it was built from.
-/

namespace Swinx

namespace Profile

open Lines

/-- A text of wide characters. -/
abbrev WString := List ℕ

/-- `PROFILEKEY` -/
structure PROFILEKEY where
  name : WString
  value : Option WString
  deriving DecidableEq, Repr

/-- `PROFILESECTION` -/
structure PROFILESECTION where
  name : WString
  key : List PROFILEKEY
  deriving DecidableEq, Repr

/-- `PROFILE_isspaceW` -/
def isspaceW (c : ℕ) : Bool := decide (0x09 ≤ c ∧ c ≤ 0x0d) || c == 0x1a || c == 0x20

/-- The characters a line ends with. -/
def isEol (c : ℕ) : Bool := c == 0x0a || c == 0x0d

/-- What the string functions see of the characters at a pointer. -/
def str (s : WString) : WString := s.takeWhile fun c => c ≠ 0

/-! ### Reading and writing -/

/-- The name in a section header: what is between `[` and the last `]`. -/
def sectionName (line : WString) : Option WString :=
  let upTo := line.rdropWhile fun c => c ≠ 0x5d
  if line.head? = some 0x5b ∧ upTo ≠ [] then some (str upTo.dropLast.tail) else none

/-- The key of a line, and the length of its name in the text. -/
def readKey (line : WString) : ℕ × PROFILEKEY :=
  match line.dropWhile fun c => c ≠ 0x3d with
  | [] => (line.length, ⟨str line, none⟩)
  | _ :: value =>
    let name := (line.takeWhile fun c => c ≠ 0x3d).rdropWhile isspaceW
    (name.length, ⟨str name, some (str (value.dropWhile isspaceW))⟩)

/-- A key is added, but not one without a name behind another one without a name. -/
def PROFILESECTION.addKey (s : PROFILESECTION) (len : ℕ) (k : PROFILEKEY) : PROFILESECTION :=
  if len ≠ 0 ∨ s.key.getLast?.all fun prev => prev.name ≠ [] then { s with key := s.key ++ [k] }
  else s

/-- The loop of `PROFILE_Load` over the lines that are not blank, with the section it is in. -/
def build : PROFILESECTION → List WString → List PROFILESECTION
  | s, [] => [s]
  | s, line :: lines =>
    match sectionName line with
    | some name => s :: build ⟨name, []⟩ lines
    | none => build (s.addKey (readKey line).1 (readKey line).2) lines

/-- What `PROFILE_Load` makes of the decoded text. -/
def loadText (text : WString) : List PROFILESECTION :=
  build ⟨[], []⟩ (contents isEol isspaceW text)

/-- The line of a key. -/
def keyLine (k : PROFILEKEY) : WString :=
  k.name ++ (k.value.elim [] fun value => 0x3d :: value)

/-- The lines of a section. -/
def sectionLines (s : PROFILESECTION) : List WString :=
  (if s.name = [] then [] else [0x5b :: s.name ++ [0x5d]]) ++ s.key.map keyLine

/-- The lines with their ends. -/
def endLines (lines : List WString) : WString := lines.flatMap fun line => line ++ [0x0d, 0x0a]

/-- The text of a section that `PROFILE_Save` writes. -/
def sectionText (s : PROFILESECTION) : WString := endLines (sectionLines s)

/-- The text of all sections. -/
def saveText (tree : List PROFILESECTION) : WString := tree.flatMap sectionText

/-! ### Clean trees -/

/-- No character of the text ends a line or a string. -/
def Plain (s : WString) : Prop := ∀ c ∈ s, isEol c = false ∧ c ≠ 0

/-- A key that is read back as it was written. -/
structure KeyClean (k : PROFILEKEY) : Prop where
  name : Tight isspaceW k.name
  value : ∀ v ∈ k.value, Tight isspaceW v
  noSign : 0x3d ∉ k.name
  plain : Plain (keyLine k)
  notBlank : keyLine k ≠ []
  notHeader : sectionName (keyLine k) = none

/-- A section that is read back as it was written, when it has a name. -/
structure SectionClean (s : PROFILESECTION) : Prop where
  name : Plain s.name
  key : ∀ k ∈ s.key, KeyClean k
  chain : s.key.IsChain fun k l => k.name ≠ [] ∨ l.name ≠ []

/-- **What holds of every tree that was loaded.** -/
def Clean (tree : List PROFILESECTION) : Prop := ∀ s ∈ tree, SectionClean s

variable {s : PROFILESECTION} {k : PROFILEKEY} {tree : List PROFILESECTION}
  {line text name : WString} {lines : List WString}

theorem isspaceW_of_isEol (c : ℕ) (h : isEol c = true) : isspaceW c = true := by
  simp only [isEol, isspaceW, Bool.or_eq_true, beq_iff_eq, decide_eq_true_eq] at *
  omega

theorem str_eq_self (h : Plain line) : str line = line :=
  List.takeWhile_eq_self_iff.2 fun c hc => decide_eq_true (h c hc).2

theorem Plain.subset {s t : WString} (h : Plain s) (hsub : ∀ c ∈ t, c ∈ s) : Plain t :=
  fun c hc => h c (hsub c hc)

theorem sectionName_eq_none_iff :
    sectionName line = none ↔ (line.head? = some 0x5b → 0x5d ∉ line) := by
  have hall : line.rdropWhile (fun c => c ≠ 0x5d) = [] ↔ 0x5d ∉ line := by
    rw [List.rdropWhile_eq_nil_iff]
    constructor
    · intro h hmem
      simpa using h _ hmem
    · intro h c hc
      refine decide_eq_true ?_
      rintro rfl
      exact h hc
  simp only [sectionName]
  split
  · next h => exact ⟨fun hnone => (nomatch hnone), fun hnot => absurd (hall.2 (hnot h.1)) h.2⟩
  · next h => exact ⟨fun _ hhead => hall.1 (not_not.1 fun hne => h ⟨hhead, hne⟩), fun _ => rfl⟩

theorem sectionName_header (h : Plain name) : sectionName (0x5b :: name ++ [0x5d]) = some name := by
  have hup : (0x5b :: name ++ [0x5d]).rdropWhile (fun c => c ≠ 0x5d) = 0x5b :: name ++ [0x5d] :=
    rdropWhile_concat_of_not rfl
  simp only [sectionName]
  rw [hup, if_pos ⟨rfl, by simp⟩, List.dropLast_concat, List.tail_cons, str_eq_self h]

theorem tight_keyLine (h : KeyClean k) : Tight isspaceW (keyLine k) := by
  obtain ⟨name, value⟩ := k
  obtain ⟨hname, hvalue, -, -, -, -⟩ := h
  dsimp only at hname hvalue
  cases value with
  | none =>
    rw [keyLine, Option.elim_none, List.append_nil]
    exact hname
  | some v =>
    have hv := hvalue v rfl
    have hright : (0x3d :: v).rdropWhile isspaceW = 0x3d :: v := by
      by_cases hnil : v = []
      · rw [hnil]
        rfl
      · exact rdropWhile_append_of_ne_nil (s := [0x3d]) hv.right hnil
    refine ⟨dropWhile_eq_self_of_head ?_, rdropWhile_append_of_ne_nil hright (by simp)⟩
    intro c hc
    -- the first character is the sign when there is no name
    by_cases hnil : name = []
    · obtain rfl : 0x3d = c := by
        rw [keyLine, hnil] at hc
        exact Option.some.inj hc
      rfl
    · rw [keyLine, List.head?_append_of_ne_nil _ hnil] at hc
      exact head_of_dropWhile_eq_self hname.left c hc

/-- **A clean key is read back.** -/
theorem readKey_keyLine (h : KeyClean k) : readKey (keyLine k) = (k.name.length, k) := by
  obtain ⟨name, value⟩ := k
  obtain ⟨hname, hvalue, hsign, hplain, -, -⟩ := h
  dsimp only at hname hvalue hsign
  have hall : ∀ c ∈ name, decide (c ≠ 0x3d) = true := fun c hc =>
    decide_eq_true fun heq => hsign (heq ▸ hc)
  have hname' : Plain name := hplain.subset fun c hc => List.mem_append_left _ hc
  cases value with
  | none =>
    have hdrop : name.dropWhile (fun c => c ≠ 0x3d) = [] := List.dropWhile_eq_nil_iff.2 hall
    rw [keyLine, Option.elim_none, List.append_nil, readKey, hdrop]
    dsimp only
    rw [str_eq_self hname']
  | some v =>
    have hdrop : (name ++ 0x3d :: v).dropWhile (fun c => c ≠ 0x3d) = 0x3d :: v := by
      rw [List.dropWhile_append_of_pos hall]
      rfl
    have htake : (name ++ 0x3d :: v).takeWhile (fun c => c ≠ 0x3d) = name := by
      rw [List.takeWhile_append_of_pos hall]
      exact List.append_nil name
    have hv : Plain v := hplain.subset fun c hc =>
      List.mem_append_right _ (List.mem_cons_of_mem _ hc)
    rw [keyLine, Option.elim_some, readKey, hdrop]
    dsimp only
    rw [htake, hname.right, (hvalue v rfl).left, str_eq_self hname', str_eq_self hv]

/-- **A key that was read is clean.** -/
theorem keyClean_readKey (hplain : Plain line) (hne : line ≠ []) (htight : Tight isspaceW line)
    (hheader : sectionName line = none) :
    KeyClean (readKey line).2 ∧ (readKey line).1 = (readKey line).2.name.length := by
  cases hdrop : line.dropWhile (fun c => c ≠ 0x3d) with
  | nil =>
    have hkey : readKey line = (line.length, ⟨line, none⟩) := by
      rw [readKey, hdrop]
      dsimp only
      rw [str_eq_self hplain]
    have hline : keyLine ⟨line, none⟩ = line := List.append_nil line
    have hsign : 0x3d ∉ line := fun hmem => by
      simpa using List.dropWhile_eq_nil_iff.1 hdrop _ hmem
    rw [hkey]
    refine ⟨⟨htight, fun v hv => (nomatch hv), hsign, ?_, ?_, ?_⟩, rfl⟩
    · rwa [hline]
    · rwa [hline]
    · rwa [hline]
  | cons c rest =>
    obtain rfl : c = 0x3d := by
      have hhead := List.head?_dropWhile_not (fun c => decide (c ≠ 0x3d)) line
      rw [hdrop] at hhead
      simpa using hhead
    have hline := List.takeWhile_append_dropWhile (p := fun c => decide (c ≠ 0x3d)) (l := line)
    rw [hdrop] at hline
    set front := line.takeWhile fun c => decide (c ≠ 0x3d) with hfront
    have hpre := List.rdropWhile_prefix isspaceW front
    have hsuf := List.dropWhile_suffix isspaceW (l := rest)
    have hname : ∀ c ∈ front.rdropWhile isspaceW, c ∈ line := fun c hc => by
      rw [← hline]
      exact List.mem_append_left _ (hpre.subset hc)
    have hvalue : ∀ c ∈ rest.dropWhile isspaceW, c ∈ line := fun c hc => by
      rw [← hline]
      exact List.mem_append_right _ (List.mem_cons_of_mem _ (hsuf.subset hc))
    have hkey : readKey line = ((front.rdropWhile isspaceW).length,
        ⟨front.rdropWhile isspaceW, some (rest.dropWhile isspaceW)⟩) := by
      rw [readKey, hdrop]
      dsimp only
      rw [str_eq_self (hplain.subset hname), str_eq_self (hplain.subset hvalue)]
    have hsub : ∀ c ∈ keyLine ⟨front.rdropWhile isspaceW, some (rest.dropWhile isspaceW)⟩,
        c ∈ line := by
      intro c hc
      rcases List.mem_append.1 hc with hc | hc
      · exact hname c hc
      · rcases List.mem_cons.1 hc with rfl | hc
        · rw [← hline]
          exact List.mem_append_right _ List.mem_cons_self
        · exact hvalue c hc
    have hhead : ∀ c ∈ (front.rdropWhile isspaceW).head?, line.head? = some c := by
      intro c hc
      obtain ⟨u, hu⟩ := hpre
      rw [← hline, ← hu, List.append_assoc, List.head?_append]
      rw [Option.mem_def.1 hc]
      rfl
    rw [hkey]
    refine ⟨⟨⟨dropWhile_eq_self_of_head ?_, List.rdropWhile_idempotent _ _⟩, ?_, ?_,
      hplain.subset hsub, by simp [keyLine], ?_⟩, rfl⟩
    · intro c hc
      exact head_of_dropWhile_eq_self htight.left c (hhead c hc)
    · rintro v hv
      obtain rfl := Option.some.inj hv
      refine ⟨List.dropWhile_idempotent _ _, ?_⟩
      -- the value ends where the line does
      rw [List.rdropWhile_eq_self_iff]
      intro hnil
      obtain ⟨u, hu⟩ := hsuf
      have hsplit : line = front ++ 0x3d :: u ++ rest.dropWhile isspaceW := by
        rw [List.append_assoc, List.cons_append, hu, hline]
      have hlast := List.rdropWhile_eq_self_iff.1 htight.right hne
      have heq : line.getLast hne = (rest.dropWhile isspaceW).getLast hnil := by
        simp only [hsplit, List.getLast_append_of_ne_nil _ hnil]
      rwa [heq] at hlast
    · intro hmem
      have hin := hpre.subset hmem
      rw [hfront] at hin
      simpa using List.mem_takeWhile_imp hin
    · rw [sectionName_eq_none_iff] at hheader ⊢
      intro hbracket hmem
      refine hheader ?_ (hsub _ hmem)
      -- the line begins as the name does: the sign is no bracket
      cases hfr : front.rdropWhile isspaceW with
      | nil =>
        rw [hfr] at hbracket
        exact absurd (Option.some.inj hbracket) (by decide)
      | cons c name =>
        rw [hfr] at hbracket hhead
        exact hhead _ hbracket

theorem addKey_of (len : ℕ) (h : len ≠ 0 ∨ s.key.getLast?.all fun prev => prev.name ≠ []) :
    s.addKey len k = { s with key := s.key ++ [k] } := if_pos h

/-- A key that was read is added to a clean section, or left out. -/
theorem SectionClean.addKey (hs : SectionClean s) (hk : KeyClean k) :
    SectionClean (s.addKey k.name.length k) := by
  rw [PROFILESECTION.addKey]
  split
  · next h =>
    refine ⟨hs.name, ?_, ?_⟩
    · intro l hl
      rcases List.mem_append.1 hl with hl | hl
      · exact hs.key l hl
      · exact List.mem_singleton.1 hl ▸ hk
    · refine List.isChain_append.2 ⟨hs.chain, List.isChain_singleton _, ?_⟩
      intro prev hprev l hl
      obtain rfl : k = l := Option.some.inj hl
      rcases h with hlen | hall
      · exact .inr fun hnil => hlen (by rw [hnil]; rfl)
      · rw [Option.mem_def.1 hprev] at hall
        exact .inl (of_decide_eq_true hall)
  · exact hs

theorem sectionClean_nil : SectionClean ⟨[], []⟩ :=
  ⟨fun _ h => absurd h List.not_mem_nil, fun _ h => absurd h List.not_mem_nil, List.isChain_nil⟩

/-- **A tree that was built is clean.** -/
theorem clean_build (hs : SectionClean s) (hlines : ∀ line ∈ lines, Plain line ∧ line ≠ [] ∧
    Tight isspaceW line) : Clean (build s lines) := by
  induction lines generalizing s with
  | nil =>
    intro t ht
    exact List.mem_singleton.1 ht ▸ hs
  | cons line lines ih =>
    obtain ⟨⟨hplain, hne, htight⟩, hrest⟩ := List.forall_mem_cons.1 hlines
    rw [build]
    cases hname : sectionName line with
    | some name =>
      intro t ht
      rcases List.mem_cons.1 ht with rfl | ht
      · exact hs
      -- the name is a part of the line
      refine ih ⟨?_, fun _ h => absurd h List.not_mem_nil, List.isChain_nil⟩ hrest t ht
      simp only [sectionName] at hname
      split at hname
      · obtain rfl := Option.some.inj hname
        refine hplain.subset fun c hc => ?_
        exact (List.rdropWhile_prefix _ _).subset ((List.dropLast_sublist _).subset
          ((List.tail_sublist _).subset ((List.takeWhile_prefix _).subset hc)))
      · cases hname
    | none =>
      obtain ⟨hk, hlen⟩ := keyClean_readKey hplain hne htight hname
      dsimp only
      rw [hlen]
      exact ih (hs.addKey hk) hrest

theorem clean_load (htext : 0 ∉ text) : Clean (loadText text) := by
  refine clean_build sectionClean_nil ?_
  intro line hline
  obtain ⟨hne, htight⟩ := tight_of_mem_contents hline
  refine ⟨?_, hne, htight⟩
  intro c hc
  obtain ⟨heol, hmem⟩ := mem_of_mem_contents isspaceW_of_isEol hline hc
  exact ⟨heol, fun hzero => htext (hzero ▸ hmem)⟩

/-- The first section that is built is the one the loop begins with, with more keys. -/
theorem build_eq_cons (s : PROFILESECTION) (lines : List WString) :
    ∃ key rest, build s lines = ⟨s.name, key⟩ :: rest := by
  induction lines generalizing s with
  | nil => exact ⟨s.key, [], rfl⟩
  | cons line lines ih =>
    rw [build]
    cases sectionName line with
    | some name => exact ⟨s.key, _, rfl⟩
    | none =>
      dsimp only
      obtain ⟨key, rest, hbuild⟩ := ih (s.addKey (readKey line).1 (readKey line).2)
      refine ⟨key, rest, ?_⟩
      rw [hbuild, PROFILESECTION.addKey]
      split <;> rfl

theorem length_build (s : PROFILESECTION) (lines : List WString) :
    (build s lines).length = lines.countP (fun line => (sectionName line).isSome) + 1 := by
  induction lines generalizing s with
  | nil => rfl
  | cons line lines ih =>
    rw [build, List.countP_cons]
    cases sectionName line with
    | some name =>
      rw [List.length_cons, ih]
      rfl
    | none => exact ih _

/-! ### What was written is read back -/

theorem saveText_eq (tree : List PROFILESECTION) :
    saveText tree = endLines (tree.flatMap sectionLines) := List.flatMap_assoc.symm

theorem endLines_cons (line : WString) (lines : List WString) :
    endLines (line :: lines) = line ++ ([0x0d, 0x0a] ++ endLines lines) := by
  rw [endLines, List.flatMap_cons, List.append_assoc, endLines]

/-- A line that is read as it stands. -/
def LineClean (line : WString) : Prop := Plain line ∧ line ≠ [] ∧ Tight isspaceW line

theorem lineClean_of_clean (h : Clean tree) :
    ∀ line ∈ tree.flatMap sectionLines, LineClean line := by
  intro line hline
  obtain ⟨s, hs, hline⟩ := List.mem_flatMap.1 hline
  rcases List.mem_append.1 hline with hline | hline
  · split at hline
    · cases hline
    obtain rfl := List.mem_singleton.1 hline
    refine ⟨?_, by simp, ?_, rdropWhile_concat_of_not rfl⟩
    · intro c hc
      simp only [List.cons_append, List.mem_cons, List.mem_append, List.not_mem_nil,
        or_false] at hc
      rcases hc with rfl | hc | rfl
      · decide
      · exact (h s hs).name c hc
      · decide
    · rfl
  · obtain ⟨k, hk, rfl⟩ := List.mem_map.1 hline
    have hclean := (h s hs).key k hk
    exact ⟨hclean.plain, hclean.notBlank, tight_keyLine hclean⟩

theorem contents_cons (hplain : Plain line) (rest : WString) :
    contents isEol isspaceW (line ++ ([0x0d, 0x0a] ++ rest)) =
      (if trim isspaceW line = [] then [] else [trim isspaceW line]) ++
        contents isEol isspaceW rest :=
  contents_line isspaceW_of_isEol (fun c hc => (hplain c hc).1) (by decide) (by decide)

theorem contents_endLines (h : ∀ line ∈ lines, LineClean line) :
    contents isEol isspaceW (endLines lines) = lines := by
  induction lines with
  | nil => exact contents_nil
  | cons line lines ih =>
    obtain ⟨⟨hplain, hne, htight⟩, hrest⟩ := List.forall_mem_cons.1 h
    rw [endLines_cons, contents_cons hplain, trim_tight htight, if_neg hne, ih hrest]
    rfl

/-- **The lines that are read are those that were written.** -/
theorem contents_save (h : Clean tree) :
    contents isEol isspaceW (saveText tree) = tree.flatMap sectionLines := by
  rw [saveText_eq]
  exact contents_endLines (lineClean_of_clean h)

theorem build_keys {ks : List PROFILEKEY} (hk : ∀ k ∈ ks, KeyClean k)
    (hchain : (s.key ++ ks).IsChain fun k l => k.name ≠ [] ∨ l.name ≠ []) :
    build s (ks.map keyLine ++ lines) = build { s with key := s.key ++ ks } lines := by
  induction ks generalizing s with
  | nil => rw [List.map_nil, List.nil_append, List.append_nil]
  | cons k ks ih =>
    obtain ⟨hclean, hrest⟩ := List.forall_mem_cons.1 hk
    have hadd : s.addKey k.name.length k = { s with key := s.key ++ [k] } := by
      refine addKey_of _ ?_
      by_cases hname : k.name = []
      · right
        have hlast := (List.isChain_append.1 hchain).2.2
        cases hprev : s.key.getLast? with
        | none => rfl
        | some prev =>
          have hpair := hlast prev hprev k rfl
          exact decide_eq_true (hpair.resolve_right (not_not.2 hname))
      · exact .inl fun hlen => hname (List.eq_nil_of_length_eq_zero hlen)
    rw [List.map_cons, List.cons_append, build, hclean.notHeader, readKey_keyLine hclean]
    dsimp only
    rw [hadd, ih hrest (by rw [List.append_assoc]; exact hchain), List.append_assoc]
    rfl

/-- **The sections behind the first one are read back**, when all of them have a name. -/
theorem build_sections (hclean : Clean tree) (hname : ∀ t ∈ tree, t.name ≠ []) :
    build s (tree.flatMap sectionLines) = s :: tree := by
  induction tree generalizing s with
  | nil => rfl
  | cons t tree ih =>
    obtain ⟨ht, hrest⟩ := List.forall_mem_cons.1 hclean
    obtain ⟨hnt, hnrest⟩ := List.forall_mem_cons.1 hname
    rw [List.flatMap_cons, sectionLines, if_neg hnt, List.append_assoc, List.singleton_append,
      build, sectionName_header ht.name]
    dsimp only
    rw [build_keys (s := ⟨t.name, []⟩) ht.key ht.chain, ih hrest hnrest]
    rfl

/-- **A clean tree is read back**: its first section has no name and all others have one. -/
theorem loadText_saveText {first : List PROFILEKEY} (hclean : Clean (⟨[], first⟩ :: tree))
    (hname : ∀ t ∈ tree, t.name ≠ []) :
    loadText (saveText (⟨[], first⟩ :: tree)) = ⟨[], first⟩ :: tree := by
  obtain ⟨hfirst, hrest⟩ := List.forall_mem_cons.1 hclean
  rw [loadText, contents_save hclean, List.flatMap_cons, sectionLines, if_pos rfl,
    List.nil_append, build_keys (s := ⟨[], []⟩) hfirst.key hfirst.chain]
  exact build_sections hrest hname

theorem count_headers (h : Clean tree) :
    (tree.flatMap sectionLines).countP (fun line => (sectionName line).isSome) =
      tree.countP fun t => t.name ≠ [] := by
  induction tree with
  | nil => rfl
  | cons t tree ih =>
    obtain ⟨ht, hrest⟩ := List.forall_mem_cons.1 h
    have hkeys : (t.key.map keyLine).countP (fun line => (sectionName line).isSome) = 0 := by
      rw [List.countP_eq_zero]
      intro line hline
      obtain ⟨k, hk, rfl⟩ := List.mem_map.1 hline
      rw [(ht.key k hk).notHeader]
      exact Bool.false_ne_true
    rw [List.flatMap_cons, List.countP_append, ih hrest, List.countP_cons, sectionLines,
      List.countP_append, hkeys, Nat.add_comm]
    by_cases hname : t.name = []
    · simp [hname]
    · rw [if_neg hname, List.countP_singleton, sectionName_header ht.name]
      simp [hname]

theorem loadText_eq_cons (text : WString) : ∃ first rest, loadText text = ⟨[], first⟩ :: rest :=
  build_eq_cons ⟨[], []⟩ _

/-- **Which texts are read back once they were read and written**: those where every header has a
name. -/
theorem loadText_saveText_iff (htext : 0 ∉ text) :
    loadText (saveText (loadText text)) = loadText text ↔
      ∀ s ∈ (loadText text).tail, s.name ≠ [] := by
  have hclean := clean_load htext
  obtain ⟨first, rest, hload⟩ := loadText_eq_cons text
  rw [hload] at hclean ⊢
  refine ⟨fun h => ?_, loadText_saveText hclean⟩
  -- A section without a name has no header, so there is one section less.
  rw [loadText, contents_save hclean] at h
  have hlength := congrArg List.length h
  rw [length_build, List.length_cons, Nat.add_right_cancel_iff] at hlength
  rw [count_headers hclean, List.countP_cons_of_neg (by simp)] at hlength
  intro t ht
  exact of_decide_eq_true (List.countP_eq_length.1 hlength t ht)

/-! ### Lengths -/

theorem length_header_le (h : sectionName line = some name) :
    (sectionLines ⟨name, []⟩).flatten.length ≤ line.length := by
  by_cases hnil : name = []
  · rw [sectionLines, if_pos hnil]
    exact Nat.zero_le _
  · simp only [sectionName] at h
    split at h
    · obtain rfl := Option.some.inj h
      have hstr : (str (line.rdropWhile fun c => c ≠ 0x5d).dropLast.tail).length ≤ _ :=
        (List.takeWhile_sublist _).length_le
      have hup := (List.rdropWhile_prefix (fun c => decide (c ≠ 0x5d)) line).length_le
      have hpos := List.length_pos_of_ne_nil hnil
      rw [List.length_tail, List.length_dropLast] at hstr
      simp only [sectionLines, if_neg hnil, List.map_nil, List.append_nil, List.flatten_cons,
        List.flatten_nil, List.cons_append, List.length_cons, List.length_append, List.length_nil]
      omega
    · cases h

theorem length_keyLine_readKey_le (line : WString) :
    (keyLine (readKey line).2).length ≤ line.length := by
  have hsplit := List.takeWhile_append_dropWhile (p := fun c => decide (c ≠ 0x3d)) (l := line)
  have hlength := congrArg List.length hsplit
  rw [List.length_append] at hlength
  unfold readKey
  split
  · simp only [keyLine, Option.elim_none, List.append_nil]
    exact (List.takeWhile_sublist _).length_le
  · next c value hdrop =>
    have hname : (str ((line.takeWhile fun c => c ≠ 0x3d).rdropWhile isspaceW)).length ≤
        (line.takeWhile fun c => c ≠ 0x3d).length :=
      (List.takeWhile_sublist _).length_le.trans (List.rdropWhile_prefix _ _).length_le
    have hvalue : (str (value.dropWhile isspaceW)).length ≤ value.length :=
      (List.takeWhile_sublist _).length_le.trans (List.dropWhile_sublist _).length_le
    rw [hdrop, List.length_cons] at hlength
    simp only [keyLine, Option.elim_some, List.length_append, List.length_cons]
    omega

/-- **A tree is not longer than the lines it was built from.** -/
theorem length_build_le (s : PROFILESECTION) (lines : List WString) :
    ((build s lines).flatMap sectionLines).flatten.length ≤
      (sectionLines s).flatten.length + lines.flatten.length := by
  induction lines generalizing s with
  | nil =>
    rw [build, List.flatMap_singleton]
    exact Nat.le_add_right _ _
  | cons line lines ih =>
    rw [build, List.flatten_cons, List.length_append]
    cases hname : sectionName line with
    | some name =>
      have hhead := length_header_le hname
      have hrest := ih ⟨name, []⟩
      dsimp only
      rw [List.flatMap_cons, List.flatten_append, List.length_append]
      omega
    | none =>
      have hkey := length_keyLine_readKey_le line
      have hrest := ih (s.addKey (readKey line).1 (readKey line).2)
      have hadd : (sectionLines (s.addKey (readKey line).1 (readKey line).2)).flatten.length ≤
          (sectionLines s).flatten.length + (keyLine (readKey line).2).length := by
        rw [PROFILESECTION.addKey]
        split
        · simp only [sectionLines, List.map_append, List.map_cons, List.map_nil,
            List.flatten_append, List.flatten_cons, List.flatten_nil, List.length_append,
            List.length_nil]
          omega
        · exact Nat.le_add_right _ _
      dsimp only
      omega

end Profile

end Swinx
