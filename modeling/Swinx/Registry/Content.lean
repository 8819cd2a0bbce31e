import Swinx.Registry.Line

/-!
# What a store contains

For the registry a store is its content: which value a key has under a name, and how the name is
written (`look`).  Creating keys leaves the content alone, and storing a value changes it in one
place.  Whatever a file contains, the parser never puts a value under a path with a newline or a
`]`, nor under a name with a newline or a `=` (`cleanNames_parseIniStream`).
-/

namespace Swinx

namespace Registry

/-- **The content of a store**: the name as it was written, and the value. -/
def look (keys : Keys) (path name : Bytes) : Option (Bytes × RegistryValue) :=
  (keys.find? path).bind fun key =>
    (key.values.find? name).map fun v => ((key.valueNames.find? name).getD [], v)

@[simp] theorem look_empty (path name : Bytes) : look .empty path name = none := rfl

theorem look_eq_some {keys : Keys} {path n name : Bytes} {v : RegistryValue} :
    look keys path n = some (name, v) ↔ ∃ key, keys.find? path = some key ∧
      key.values.find? n = some v ∧ name = (key.valueNames.find? n).getD [] := by
  simp only [look, Option.bind_eq_some_iff, Option.map_eq_some_iff, Prod.mk.injEq]
  constructor
  · rintro ⟨key, hkey, w, hw, hname, rfl⟩
    exact ⟨key, hkey, hw, hname.symm⟩
  · rintro ⟨key, hkey, hv, rfl⟩
    exact ⟨key, hkey, v, hv, rfl, rfl⟩

theorem look_insert_of_isNone {keys : Keys} {p : Bytes} {key : RegistryKey}
    (hp : (keys.find? p).isNone) (hkey : key.values = .empty) (path name : Bytes) :
    look (keys.insert p key) path name = look keys path name := by
  unfold look
  rw [SortedMap.find?_insert]
  split_ifs with h
  · rw [h, Option.isNone_iff_eq_none.1 hp]
    simp [hkey]
  · rfl

theorem look_ensureOne (keys : Keys) (part partWritten path name : Bytes) :
    look (ensureOne keys part partWritten) path name = look keys path name := by
  unfold ensureOne
  split_ifs with h
  · exact look_insert_of_isNone h.2 rfl path name
  · rfl

theorem look_ensureKeyAux (keys : Keys) (part partWritten : Bytes) (l : List (UInt8 × UInt8))
    (path name : Bytes) :
    look (ensureKeyAux keys part partWritten l) path name = look keys path name := by
  induction l generalizing keys part partWritten with
  | nil => exact look_ensureOne ..
  | cons c l ih =>
    rw [ensureKeyAux, ih]
    split_ifs
    · exact look_ensureOne ..
    · rfl

/-- **Creating a key leaves the content alone.** -/
theorem look_ensureKey (keys : Keys) (p w path name : Bytes) :
    look (ensureKey keys p w) path name = look keys path name :=
  look_ensureKeyAux ..

/-- **Storing a value changes the content in one place.** -/
theorem look_storeValue (keys : Keys) (p name text path n : Bytes) :
    look (storeValue keys p name text) path n =
      if path = p ∧ n = lowerAscii name then some (name, valueOf text) else look keys path n := by
  unfold look storeValue
  rw [SortedMap.find?_insert]
  by_cases hp : path = p
  · subst hp
    simp only [if_true, true_and, Option.bind_some, SortedMap.find?_insert]
    split_ifs
    · rfl
    · cases keys.find? path with
      | none => rfl
      | some key => rfl
  · simp [hp]

/-! ### What the parser can store -/

/-- **Nothing is stored under a path or a name that could not be read.** -/
def CleanNames (keys : Keys) : Prop :=
  ∀ path n, look keys path n ≠ none →
    (newline ∉ path ∧ closeBracket ∉ path) ∧ newline ∉ n ∧ equals ∉ n

theorem cleanNames_empty : CleanNames .empty := fun path n h => absurd (look_empty path n) h

/-- A line that ends with its newline has none once it is trimmed. -/
theorem newline_notMem_trim {line : Bytes} (h : newline ∉ line.dropLast) :
    newline ∉ trim (cstr line) := by
  rcases List.eq_nil_or_concat line with rfl | ⟨s, c, rfl⟩
  · exact fun hn => absurd (mem_of_mem_trim hn) (by decide)
  · rw [List.concat_eq_append] at h ⊢
    rw [List.dropLast_concat] at h
    by_cases hz : 0 ∉ s ++ [c]
    · rw [cstr_eq_self hz]
      by_cases hc : c = newline
      · rw [hc, trim_concat_newline]
        exact fun hn => h (mem_of_mem_trim hn)
      · refine fun hn => ?_
        rcases List.mem_append.1 (mem_of_mem_trim hn) with hn | hn
        · exact h hn
        · exact hc (List.mem_singleton.1 hn).symm
    · -- With a NUL in the line, its last byte is not read.
      by_cases hs : 0 ∈ s
      · rw [cstr, takeWhile_ne_append_of_mem hs]
        exact fun hn => h ((List.takeWhile_prefix _).subset (mem_of_mem_trim hn))
      · obtain rfl : 0 = c := by simpa [hs] using hz
        have hcstr : cstr (s ++ [0]) = s := by
          rw [cstr,
            List.takeWhile_append_of_pos (by simpa using fun b hb => ne_of_mem_of_not_mem hb hs),
            List.takeWhile_cons_of_neg (by simp), List.append_nil]
        rw [hcstr]
        exact fun hn => h (mem_of_mem_trim hn)

/-- What has been read is clean. -/
structure ParsedClean (st : Parsed) : Prop where
  keys : CleanNames st.1
  current : newline ∉ st.2 ∧ closeBracket ∉ st.2

theorem ParsedClean.parseLine {st : Parsed} {line : Bytes} (h : ParsedClean st)
    (hline : newline ∉ line.dropLast) : ParsedClean (parseLine st line) := by
  have hn : ∀ {s : Bytes}, s ⊆ trim (cstr line) → newline ∉ s := fun hs hc =>
    newline_notMem_trim hline (hs hc)
  rcases parseLine_cases st line with he | he | ⟨w, -, hc, hw, he⟩ | ⟨name, text, -, hc, hw, he⟩
  · rwa [he]
  · rw [he]
    exact ⟨h.keys, List.not_mem_nil, List.not_mem_nil⟩
  · rw [he]
    refine ⟨fun path n hne => h.keys path n (by rwa [look_ensureKey] at hne), ?_, ?_⟩
    · rw [mem_lowerAscii (by decide)]
      exact fun hc => hn hw (mem_of_mem_collapseSeparators hc)
    · rw [mem_lowerAscii (by decide)]
      exact fun hb => hc (mem_of_mem_collapseSeparators hb)
  · rw [he]
    refine ⟨fun path n hne => ?_, h.current⟩
    rw [look_storeValue] at hne
    split_ifs at hne with hat
    · obtain ⟨rfl, rfl⟩ := hat
      rw [mem_lowerAscii (by decide), mem_lowerAscii (by decide)]
      exact ⟨h.current, fun hb => hn hw (mem_of_mem_storedName hb),
        fun hb => hc (mem_of_mem_storedName hb)⟩
    · exact h.keys path n hne

/-- **No file puts a value under a path or a name that could not be written.** -/
theorem cleanNames_parseIniStream {keys : Keys} (h : CleanNames keys) (file : Bytes) :
    CleanNames (parseIniStream file keys) := by
  obtain ⟨current, hclean⟩ := parseIniStream_induction file
    (show ParsedClean (keys, []) from ⟨h, List.not_mem_nil, List.not_mem_nil⟩)
    fun st line hline hst => hst.parseLine hline
  exact hclean.keys

end Registry

end Swinx
