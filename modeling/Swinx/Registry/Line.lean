import Swinx.Registry.Value

/-!
# The lines of a registry file

A line of `serializeStore` that fits the buffer, has no NUL and no newline inside, and no blanks
around it, reaches `parseLine` as it was written (`foldl_readLines`).  A section line makes its key
the current one (`parseLine_section`), and a value line stores its value there
(`parseLine_value`).
-/

namespace Swinx

namespace Registry

/-! ### Texts that are read as they were written -/

theorem trim_eq_self {s : Bytes} (hhead : ∀ c, s.head? = some c → isBlank c = false)
    (hlast : ∀ c, s.getLast? = some c → isBlank c = false) : trim s = s := by
  have hdrop : s.dropWhile isBlank = s := by
    cases s with
    | nil => rfl
    | cons c s => exact List.dropWhile_cons_of_neg (by simp [hhead c rfl])
  rw [trim, hdrop]
  refine List.rdropWhile_eq_self_iff.2 fun hne h => ?_
  have := hlast _ (List.getLast?_eq_getLast_of_ne_nil hne)
  rw [h] at this
  cases this

theorem trim_concat_newline (s : Bytes) : trim (s ++ [newline]) = trim s := by
  rw [trim, trim, List.dropWhile_append]
  split_ifs with h
  · rw [List.isEmpty_iff.1 h]
    rfl
  · exact List.rdropWhile_concat_pos _ _ _ rfl

/-- **A text that is read as it was written.** -/
structure IsLineText (t : Bytes) : Prop where
  newline : newline ∉ t
  nul : 0 ∉ t
  head : ∃ c, t.head? = some c ∧ isBlank c = false
  last : ∃ c, t.getLast? = some c ∧ isBlank c = false

namespace IsLineText

theorem trim_eq {t : Bytes} (h : IsLineText t) : trim t = t := by
  obtain ⟨c, hc, hb⟩ := h.head
  obtain ⟨d, hd, hb'⟩ := h.last
  refine trim_eq_self (fun c' hc' => ?_) fun d' hd' => ?_
  · rw [hc] at hc'
    cases hc'
    exact hb
  · rw [hd] at hd'
    cases hd'
    exact hb'

theorem append {a b : Bytes} {c : UInt8} (ha : IsLineText a) (hb : IsLineText b)
    (hc : c ≠ 0 ∧ c ≠ Registry.newline) : IsLineText (a ++ c :: b) where
  newline h := by
    rcases List.mem_append.1 h with h | h
    · exact ha.newline h
    · exact (List.mem_cons.1 h).elim (fun h => hc.2 h.symm) hb.newline
  nul h := by
    rcases List.mem_append.1 h with h | h
    · exact ha.nul h
    · exact (List.mem_cons.1 h).elim (fun h => hc.1 h.symm) hb.nul
  head := by
    obtain ⟨d, hd, hblank⟩ := ha.head
    exact ⟨d, by simp [hd], hblank⟩
  last := by
    obtain ⟨d, hd, hblank⟩ := hb.last
    refine ⟨d, ?_, hblank⟩
    rw [List.getLast?_append, List.getLast?_cons, hd]
    rfl

/-- A text between two bytes that are no blanks, such as quotes or brackets. -/
theorem delimited {s : Bytes} {c d : UInt8} (hn : Registry.newline ∉ s) (hz : 0 ∉ s)
    (hc : c ≠ 0 ∧ isBlank c = false) (hd : d ≠ 0 ∧ isBlank d = false) :
    IsLineText (c :: s ++ [d]) where
  newline h := by
    have hblank : isBlank Registry.newline = true := rfl
    simp only [List.cons_append, List.mem_cons, List.mem_append, List.not_mem_nil, or_false] at h
    rcases h with h | h | h
    · rw [h, hc.2] at hblank
      cases hblank
    · exact hn h
    · rw [h, hd.2] at hblank
      cases hblank
  nul h := by
    simp only [List.cons_append, List.mem_cons, List.mem_append, List.not_mem_nil, or_false] at h
    rcases h with h | h | h
    · exact hc.1 h.symm
    · exact hz h
    · exact hd.1 h.symm
  head := ⟨c, rfl, hc.2⟩
  last := ⟨d, List.getLast?_concat, hd.2⟩

theorem of_printing {t : Bytes} (hne : t ≠ []) (h : ∀ c ∈ t, 33 ≤ c ∧ c ≤ 126) :
    IsLineText t where
  newline hn := absurd (h _ hn).1 (by decide)
  nul hz := absurd (h _ hz).1 (by decide)
  head := by
    obtain ⟨c, s, rfl⟩ := List.exists_cons_of_ne_nil hne
    refine ⟨c, rfl, ?_⟩
    have := (h c List.mem_cons_self).1
    grind [isBlank]
  last := by
    refine ⟨t.getLast hne, List.getLast?_eq_getLast_of_ne_nil hne, ?_⟩
    have := (h _ (List.getLast_mem hne)).1
    grind [isBlank]

end IsLineText

theorem printing_of_isDigit {base : ℕ} {c : UInt8} (h : isDigit base c = true) :
    33 ≤ c ∧ c ≤ 126 := by
  unfold isDigit digitValue at h
  grind

theorem printing_hexText : ∀ data : Bytes, ∀ c ∈ hexText data, 33 ≤ c ∧ c ≤ 126
  | [], c, hc => by cases hc
  | [b], c, hc => printing_of_isDigit (isDigit_formatHex c hc)
  | b :: d :: rest, c, hc => by
    rw [hexText] at hc
    · rcases List.mem_append.1 hc with hc | hc
      · exact printing_of_isDigit (isDigit_formatHex c hc)
      · rcases List.mem_cons.1 hc with rfl | hc
        · decide
        · exact printing_hexText (d :: rest) c hc
    · simp

theorem isLineText_serializeValueText {v : RegistryValue} {t : Bytes}
    (h : serializeValueText v = some t) : IsLineText t := by
  have hdword : ∀ c ∈ ascii "dword:", 33 ≤ c ∧ c ≤ 126 := by decide +kernel
  have hhex : ∀ c ∈ ascii "hex(", 33 ≤ c ∧ c ≤ 126 := by decide +kernel
  have hcolon : ∀ c ∈ ascii "):", 33 ≤ c ∧ c ≤ 126 := by decide +kernel
  have hempty : ∀ c ∈ ascii "00", 33 ≤ c ∧ c ≤ 126 := by decide +kernel
  unfold serializeValueText at h
  split_ifs at h with hd hlen hsafe hnil
  · cases h
    refine .of_printing (by simp [ascii]) fun c hc => ?_
    rcases List.mem_append.1 hc with hc | hc
    · exact hdword c hc
    · exact printing_of_isDigit (isDigit_formatHex c hc)
  · cases h
    obtain ⟨-, hsafe⟩ := hsafe
    simp only [isSafeText, decide_eq_true_eq] at hsafe
    exact .delimited hsafe.2.2.2.2.2.1 hsafe.2.1 (by decide) (by decide)
  all_goals
    cases h
    refine .of_printing (by simp [ascii]) fun c hc => ?_
    simp only [List.mem_append] at hc
    rcases hc with ((hc | hc) | hc) | hc
    · exact hhex c hc
    · exact printing_of_isDigit (isDigit_formatDec c hc)
    · exact hcolon c hc
    · first | exact hempty c hc | exact printing_hexText _ c hc

/-! ### Lines that reach the parser -/

theorem parseLine_concat_newline {st : Parsed} {s : Bytes} (h : 0 ∉ s) :
    parseLine st (s ++ [newline]) = parseLine st s := by
  have hz : 0 ∉ s ++ [newline] := by simpa using ⟨h, by decide⟩
  rw [parseLine, parseLine, cstr_eq_self hz, cstr_eq_self h, trim_concat_newline]

/-- **Lines that fit the buffer reach the parser one by one.** -/
theorem foldl_readLines {lines : List Bytes} {st : Parsed}
    (h : ∀ line ∈ lines, newline ∉ line ∧ 0 ∉ line ∧ line.length ≤ 2047) :
    (readLines 2047 (lines.flatMap fun line => line ++ [newline])).foldl parseLine st =
      lines.foldl parseLine st := by
  induction lines generalizing st with
  | nil => rfl
  | cons line lines ih =>
    obtain ⟨hn, hz, hlen⟩ := h line List.mem_cons_self
    have ih := fun st => @ih st fun l hl => h l (List.mem_cons_of_mem line hl)
    rw [List.flatMap_cons, List.append_assoc, List.singleton_append]
    rcases readLines_line (n := 2046) hn hlen with hread | hread
    · rw [hread, List.foldl_cons, List.foldl_cons, parseLine_concat_newline hz, ih]
    · rw [hread, List.foldl_cons, List.foldl_cons, List.foldl_cons, ih]
      rfl

theorem parseLine_section {st : Parsed} {w : Bytes} (hw : IsPath w) (hn : newline ∉ w)
    (hc : closeBracket ∉ w) :
    parseLine st (openBracket :: w ++ [closeBracket]) =
      (ensureKey st.1 (lowerAscii w) w, lowerAscii w) := by
  have ht : IsLineText (openBracket :: w ++ [closeBracket]) :=
    .delimited hn hw.nul (by decide) (by decide)
  have hbreak : breakOn closeBracket (w ++ [closeBracket]) = some (w, []) := breakOn_append hc
  rw [parseLine, cstr_eq_self ht.nul, ht.trim_eq, List.cons_append]
  simp only [hbreak, resolvePathRawSection, if_pos hw.root, hw.collapsed]
  rfl

theorem isLineText_nameText {name : Bytes} (hn : newline ∉ name) (hz : 0 ∉ name) :
    IsLineText (nameText name) := by
  unfold nameText
  split_ifs
  · exact .of_printing (by simp [ascii]) (by decide +kernel)
  · exact .delimited hn hz (by decide) (by decide)

theorem isLineText_valueLine {name text : Bytes} (hn : newline ∉ name) (hz : 0 ∉ name)
    (ht : IsLineText text) : IsLineText (valueLine name text) :=
  (isLineText_nameText hn hz).append ht (by decide)

theorem parseLine_value {st : Parsed} {name text : Bytes} (hst : st.2 ≠ []) (hn : newline ∉ name)
    (hz : 0 ∉ name) (he : equals ∉ name) (ht : IsLineText text) :
    parseLine st (valueLine name text) = (storeValue st.1 st.2 name (unquote text), st.2) := by
  have hline := isLineText_valueLine hn hz ht
  have hname := (isLineText_nameText hn hz).trim_eq
  have hbreak : breakOn equals (valueLine name text) = some (nameText name, text) := by
    refine breakOn_append fun h => ?_
    unfold nameText at h
    split_ifs at h
    · exact absurd h (by decide +kernel)
    · simp only [List.cons_append, List.mem_cons, List.mem_append, List.not_mem_nil,
        or_false] at h
      rcases h with h | h | h
      · exact absurd h (by decide)
      · exact he h
      · exact absurd h (by decide)
  have hread : (if nameText name = ascii "@" then [] else unquote (nameText name)) = name := by
    unfold nameText
    by_cases hnil : name = []
    · rw [if_pos hnil, if_pos rfl, hnil]
    · rw [if_neg hnil, unquote_quoted, if_neg]
      simp [ascii]
  obtain ⟨c, rest, hcons, hc⟩ : ∃ c rest, valueLine name text = c :: rest ∧
      ¬ (c = 35 ∨ c = 59) ∧ c ≠ openBracket := by
    unfold valueLine nameText
    split_ifs
    · exact ⟨64, _, rfl, by decide, by decide⟩
    · exact ⟨quote, _, rfl, by decide, by decide⟩
  rw [parseLine, cstr_eq_self hline.nul, hline.trim_eq, hcons]
  simp only [if_neg hc.1, if_neg hc.2, if_neg hst]
  rw [← hcons, hbreak]
  simp only [hname, hread, ht.trim_eq]

/-! ### What a line can do -/

theorem mem_of_mem_trim {c : UInt8} {s : Bytes} (h : c ∈ trim s) : c ∈ s := by
  have hsuffix : s.dropWhile isBlank ⊆ s := (List.dropWhile_suffix _).subset
  have hsplit : trim s ++ (s.dropWhile isBlank).rtakeWhile isBlank = s.dropWhile isBlank :=
    List.rdropWhile_append_rtakeWhile
  exact hsuffix (hsplit ▸ List.mem_append_left _ h)

theorem mem_of_mem_unquote {c : UInt8} {s : Bytes} (h : c ∈ unquote s) : c ∈ s := by
  unfold unquote at h
  split_ifs at h
  · exact List.mem_of_mem_tail (List.dropLast_subset _ h)
  · exact h

/-- What the parser stores a value under. -/
def storedName (name : Bytes) : Bytes :=
  if trim name = ascii "@" then [] else unquote (trim name)

theorem mem_of_mem_storedName {c : UInt8} {name : Bytes} (h : c ∈ storedName name) : c ∈ name := by
  unfold storedName at h
  split_ifs at h
  · cases h
  · exact mem_of_mem_trim (mem_of_mem_unquote h)

/-- **What a line can do**: nothing, leave the current key, enter a key, or store a value. -/
theorem parseLine_cases (st : Parsed) (line : Bytes) :
    parseLine st line = st ∨ parseLine st line = (st.1, []) ∨
    (∃ w, lowerAscii (rootOf w) ∈ roots ∧ closeBracket ∉ w ∧ w ⊆ trim (cstr line) ∧
      parseLine st line =
        (ensureKey st.1 (lowerAscii (collapseSeparators w)) (collapseSeparators w),
          lowerAscii (collapseSeparators w))) ∨
    ∃ name text, st.2 ≠ [] ∧ equals ∉ name ∧ name ⊆ trim (cstr line) ∧
      parseLine st line = (storeValue st.1 st.2 (storedName name) text, st.2) := by
  unfold parseLine
  split
  case h_1 => exact .inl rfl
  case h_2 c text htext =>
    rw [htext]
    split_ifs with hcomment hbracket hcur
    · exact .inl rfl
    · split
      case h_1 => exact .inl rfl
      case h_2 w rest hbreak =>
        obtain ⟨hsplit, hw⟩ := eq_of_breakOn hbreak
        unfold resolvePathRawSection
        split_ifs with hroot
        · refine .inr (.inr (.inl ⟨w, hroot, hw, ?_, rfl⟩))
          rw [hsplit]
          exact fun b hb => List.mem_cons_of_mem c (List.mem_append_left _ hb)
        · exact .inr (.inl rfl)
    · exact .inl rfl
    · split
      case h_1 => exact .inl rfl
      case h_2 name value hbreak =>
        obtain ⟨hsplit, hname⟩ := eq_of_breakOn hbreak
        refine .inr (.inr (.inr ⟨name, _, hcur, hname, ?_, rfl⟩))
        rw [hsplit]
        exact fun b hb => List.mem_append_left _ hb

/-- What holds at first and is kept by every line holds of what a file is read into. -/
theorem parseIniStream_induction {motive : Parsed → Prop} {keys : Keys} (file : Bytes)
    (hstart : motive (keys, []))
    (hline : ∀ st line, newline ∉ line.dropLast → motive st → motive (parseLine st line)) :
    ∃ current, motive (parseIniStream file keys, current) :=
  ⟨((readLines 2047 file).foldl parseLine (keys, [])).2,
    List.foldlRecOn (readLines 2047 file) parseLine hstart fun st hst line hmem =>
      hline st line (newline_notMem_readLines hmem) hst⟩

end Registry

end Swinx
