import Swinx.Registry.Api
import Swinx.Registry.Content

/-!
# The database file is read back

A mounted database is written to its file after every change, and read again at the next start.
The two halves agree on the format as long as every line fits the buffer the file is read with, and
no path, name or value is of the kinds that cannot be written (`Writable`).

* `look_reread` — what the content of the store is after it has been written and read.
* `roundTrips_iff` — for every store the calls can build whose lines fit the buffer.
-/

namespace Swinx

namespace Registry

/-- The store that `parseIniStream` reads from what `serializeStore` has written. -/
def reread (keys : Keys) : Keys := parseIniStream (serializeStore keys) .empty

/-- A value comes back under the same name, and nothing where there was nothing. -/
def Survives : Option (Bytes × RegistryValue) → Option (Bytes × RegistryValue) → Prop
  | none, none => True
  | some v, some w => w.1 = v.1 ∧ SameValue v.2 w.2
  | _, _ => False

/-- **Every key that has values comes back with the same names and the same values.** -/
def RoundTrips (keys : Keys) : Prop :=
  ∀ path, (∃ n, look keys path n ≠ none) → ∀ n,
    Survives (look keys path n) (look (reread keys) path n)

/-- Every line fits the buffer of `parseIniStream`. -/
def FitsBuffer (keys : Keys) : Prop := ∀ line ∈ storeLines keys, line.length ≤ 2047

/-- **The stores that can be written**: no path of a key with values has a newline or a `]`, no name
has a newline or a `=`, and every value is one that survives. -/
def Writable (keys : Keys) : Prop :=
  ∀ e ∈ keys.entries, ∀ v ∈ e.2.values.entries,
    (newline ∉ e.1 ∧ closeBracket ∉ e.1) ∧ (newline ∉ v.1 ∧ equals ∉ v.1) ∧ ValueOk v.2

instance : ∀ v w, Decidable (Survives v w)
  | none, none => .isTrue trivial
  | some v, some w => inferInstanceAs (Decidable (w.1 = v.1 ∧ SameValue v.2 w.2))
  | none, some _ => .isFalse id
  | some _, none => .isFalse id

instance (keys : Keys) : Decidable (FitsBuffer keys) :=
  inferInstanceAs (Decidable (∀ line ∈ storeLines keys, line.length ≤ 2047))

instance (keys : Keys) : Decidable (Writable keys) :=
  inferInstanceAs (Decidable (∀ e ∈ keys.entries, ∀ v ∈ e.2.values.entries, _))

theorem look_eq_some_iff_mem {keys : Keys} {path n name : Bytes} {v : RegistryValue} :
    look keys path n = some (name, v) ↔ ∃ key, (path, key) ∈ keys.entries ∧
      (n, v) ∈ key.values.entries ∧ name = (key.valueNames.find? n).getD [] := by
  simp only [look_eq_some, SortedMap.mem_entries_iff]

theorem writable_iff {keys : Keys} : Writable keys ↔ CleanNames keys ∧
    ∀ path n name v, look keys path n = some (name, v) → ValueOk v := by
  constructor
  · intro h
    refine ⟨fun path n hne => ?_, fun path n name v hlook => ?_⟩
    · obtain ⟨⟨name, v⟩, hlook⟩ := Option.ne_none_iff_exists'.1 hne
      obtain ⟨key, hkey, hv, -⟩ := look_eq_some_iff_mem.1 hlook
      obtain ⟨hpath, hname, -⟩ := h _ hkey _ hv
      exact ⟨hpath, hname⟩
    · obtain ⟨key, hkey, hv, -⟩ := look_eq_some_iff_mem.1 hlook
      exact (h _ hkey _ hv).2.2
  · rintro ⟨hclean, hvalue⟩ ⟨path, key⟩ hkey ⟨n, v⟩ hv
    have hlook := look_eq_some_iff_mem.2 ⟨key, hkey, hv, rfl⟩
    have hne : look keys path n ≠ none := by simp [hlook]
    obtain ⟨hpath, hname⟩ := hclean path n hne
    exact ⟨hpath, hname, hvalue _ _ _ _ hlook⟩

/-! ### What is read -/

/-- What a value becomes when it is written and read. -/
def rewritten (keys : Keys) (path n : Bytes) : Option (Bytes × RegistryValue) :=
  (look keys path n).bind fun v =>
    (serializeValueText v.2).map fun text => (v.1, valueOf (unquote text))

/-- From `keys` to `keys'` the content only changes to `g`. -/
def Grows (g : Bytes → Bytes → Option (Bytes × RegistryValue)) (keys keys' : Keys) : Prop :=
  ∀ path n, look keys' path n = look keys path n ∨ look keys' path n = g path n

namespace Grows

variable {g : Bytes → Bytes → Option (Bytes × RegistryValue)} {keys keys' keys'' : Keys}

theorem refl (keys : Keys) : Grows g keys keys := fun _ _ => .inl rfl

theorem trans (h : Grows g keys keys') (h' : Grows g keys' keys'') : Grows g keys keys'' := by
  intro path n
  rcases h' path n with he | he
  · rw [he]
    exact h path n
  · exact .inr he

theorem keep (h : Grows g keys keys') {path n : Bytes} (he : look keys path n = g path n) :
    look keys' path n = g path n := by
  rcases h path n with h | h
  · rw [h, he]
  · exact h

theorem ensureKey (keys : Keys) (path asWritten : Bytes) :
    Grows g keys (ensureKey keys path asWritten) :=
  fun _ _ => .inl (look_ensureKey ..)

theorem storeValue {path name text : Bytes}
    (hg : g path (lowerAscii name) = some (name, valueOf text)) :
    Grows g keys (storeValue keys path name text) := by
  intro path' n
  rw [look_storeValue]
  split_ifs with h
  · rw [h.1, h.2, hg]
    exact .inr rfl
  · exact .inl rfl

end Grows

variable {g : Bytes → Bytes → Option (Bytes × RegistryValue)}

/-- **The values of a key are read one by one.** -/
theorem foldl_valueLines {path : Bytes} (names : Bytes → Bytes) (hpath : path ≠ [])
    {vs : List (Bytes × RegistryValue)}
    (hvs : ∀ v ∈ vs, lowerAscii (names v.1) = v.1 ∧ newline ∉ names v.1 ∧ 0 ∉ names v.1 ∧
      equals ∉ names v.1 ∧ ∀ text, serializeValueText v.2 = some text →
        g path v.1 = some (names v.1, valueOf (unquote text))) (keys : Keys) :
    ∃ keys', (vs.filterMap fun v => (serializeValueText v.2).map (valueLine (names v.1))).foldl
        parseLine (keys, path) = (keys', path) ∧ Grows g keys keys' ∧
      ∀ v ∈ vs, serializeValueText v.2 ≠ none → look keys' path v.1 = g path v.1 := by
  induction vs generalizing keys with
  | nil => exact ⟨keys, rfl, .refl keys, fun v hv => by cases hv⟩
  | cons v vs ih =>
    have ih := ih fun u hu => hvs u (List.mem_cons_of_mem v hu)
    obtain ⟨hlower, hn, hz, he, hg⟩ := hvs v List.mem_cons_self
    cases htext : serializeValueText v.2 with
    | none =>
      obtain ⟨keys', hfold, hgrows, hread⟩ := ih keys
      refine ⟨keys', by simpa [htext] using hfold, hgrows, fun u hu hne => ?_⟩
      rcases List.mem_cons.1 hu with rfl | hu
      · exact absurd htext hne
      · exact hread u hu hne
    | some text =>
      have hg := hg text htext
      have hline : parseLine (keys, path) (valueLine (names v.1) text) =
          (storeValue keys path (names v.1) (unquote text), path) :=
        parseLine_value hpath hn hz he (isLineText_serializeValueText htext)
      obtain ⟨keys', hfold, hgrows, hread⟩ := ih (storeValue keys path (names v.1) (unquote text))
      refine ⟨keys', ?_, .trans (.storeValue (by rwa [hlower])) hgrows, fun u hu hne => ?_⟩
      · simpa [htext, hline] using hfold
      · rcases List.mem_cons.1 hu with rfl | hu
        · refine hgrows.keep ?_
          rw [look_storeValue, if_pos ⟨rfl, hlower.symm⟩, hg]
        · exact hread u hu hne

/-- A key at its path, all of whose values can be written there. -/
structure Readable (g : Bytes → Bytes → Option (Bytes × RegistryValue)) (path : Bytes)
    (key : RegistryKey) : Prop where
  ok : KeyOk path key
  clean : newline ∉ path ∧ closeBracket ∉ path
  name : ∀ n v, (n, v) ∈ key.values.entries → newline ∉ n ∧ equals ∉ n
  written : ∀ n v text, (n, v) ∈ key.values.entries → serializeValueText v = some text →
    g path n = some ((key.valueNames.find? n).getD [], valueOf (unquote text))

theorem Readable.valueName {path n : Bytes} {key : RegistryKey} {v : RegistryValue}
    (h : Readable g path key) (hv : (n, v) ∈ key.values.entries) :
    lowerAscii ((key.valueNames.find? n).getD []) = n ∧
      newline ∉ (key.valueNames.find? n).getD [] ∧ 0 ∉ (key.valueNames.find? n).getD [] ∧
      equals ∉ (key.valueNames.find? n).getD [] := by
  obtain ⟨name, hname, hlower, hz⟩ := h.ok.name n v (SortedMap.mem_entries_iff.1 hv)
  have hclean := h.name n v hv
  rw [← hlower, mem_lowerAscii (by decide), mem_lowerAscii (by decide)] at hclean
  rw [hname]
  exact ⟨hlower, hclean.1, hz, hclean.2⟩

/-- **A key is read with all its values.** -/
theorem foldl_keyLines {path : Bytes} {key : RegistryKey} (h : Readable g path key) (st : Parsed) :
    Grows g st.1 ((keyLines path key).foldl parseLine st).1 ∧
      ∀ n v, (n, v) ∈ key.values.entries → serializeValueText v ≠ none →
        look ((keyLines path key).foldl parseLine st).1 path n = g path n := by
  unfold keyLines
  split_ifs with hnil
  · exact ⟨.refl st.1, fun n v hv => by simp [hnil] at hv⟩
  · have hw := h.ok.isPath_writtenPath
    have hlower := h.ok.written
    have hne : path ≠ [] := h.ok.isPath.ne_nil
    have hclean := h.clean
    rw [← hlower, mem_lowerAscii (by decide), mem_lowerAscii (by decide)] at hclean
    rw [sectionName, if_pos hw.ne_nil, List.foldl_cons, parseLine_section hw hclean.1 hclean.2,
      hlower]
    obtain ⟨keys', hfold, hgrows, hread⟩ := foldl_valueLines
      (fun n => (key.valueNames.find? n).getD []) hne
      (fun v (hv : v ∈ key.values.entries) => by
        obtain ⟨h₁, h₂, h₃, h₄⟩ := h.valueName hv
        exact ⟨h₁, h₂, h₃, h₄, fun text ht => h.written v.1 v.2 text hv ht⟩)
      (ensureKey st.1 path key.writtenPath)
    rw [valueLines, hfold]
    exact ⟨.trans (.ensureKey _ _ _) hgrows, fun n v hv hne => hread (n, v) hv hne⟩

/-- **All keys are read.** -/
theorem foldl_entries {es : List (Bytes × RegistryKey)}
    (h : ∀ e ∈ es, e.2.values.entries ≠ [] → Readable g e.1 e.2) (st : Parsed) :
    Grows g st.1 ((es.flatMap fun e => keyLines e.1 e.2).foldl parseLine st).1 ∧
      ∀ path key, (path, key) ∈ es → ∀ n v, (n, v) ∈ key.values.entries →
        serializeValueText v ≠ none →
        look ((es.flatMap fun e => keyLines e.1 e.2).foldl parseLine st).1 path n = g path n := by
  induction es generalizing st with
  | nil => exact ⟨.refl st.1, fun path key hkey => by cases hkey⟩
  | cons e es ih =>
    rw [List.flatMap_cons, List.foldl_append]
    obtain ⟨hgrows', hread'⟩ := ih (fun e' he' => h e' (List.mem_cons_of_mem e he'))
      ((keyLines e.1 e.2).foldl parseLine st)
    by_cases hnil : e.2.values.entries = []
    · -- A key without values has no line.
      have hlines : keyLines e.1 e.2 = [] := if_pos hnil
      rw [hlines, List.foldl_nil] at hgrows' hread' ⊢
      refine ⟨hgrows', fun path key hkey n v hv => ?_⟩
      rcases List.mem_cons.1 hkey with rfl | hkey
      · exact absurd (hnil ▸ hv) List.not_mem_nil
      · exact hread' path key hkey n v hv
    · obtain ⟨hgrows, hread⟩ := foldl_keyLines (h e List.mem_cons_self hnil) st
      refine ⟨hgrows.trans hgrows', fun path key hkey n v hv hne => ?_⟩
      rcases List.mem_cons.1 hkey with rfl | hkey
      · exact hgrows'.keep (hread n v hv hne)
      · exact hread' path key hkey n v hv hne

theorem readable_of_mem {keys : Keys} (h : WellFormed keys) (hclean : CleanNames keys)
    {e : Bytes × RegistryKey} (he : e ∈ keys.entries) (hne : e.2.values.entries ≠ []) :
    Readable (rewritten keys) e.1 e.2 := by
  obtain ⟨path, key⟩ := e
  have hlook : ∀ n v, (n, v) ∈ key.values.entries →
      look keys path n = some ((key.valueNames.find? n).getD [], v) := fun n v hv =>
    look_eq_some_iff_mem.2 ⟨key, he, hv, rfl⟩
  have hclean : ∀ n v, (n, v) ∈ key.values.entries → _ := fun n v hv =>
    hclean path n (by simp [hlook n v hv])
  obtain ⟨⟨n, v⟩, vs, hvs⟩ := List.exists_cons_of_ne_nil hne
  refine ⟨h path key (SortedMap.mem_entries_iff.1 he),
    (hclean n v (hvs ▸ List.mem_cons_self)).1, fun n v hv => (hclean n v hv).2,
    fun n v text hv htext => ?_⟩
  simp [rewritten, hlook n v hv, htext]

theorem lines_ok {keys : Keys} (h : WellFormed keys) (hclean : CleanNames keys)
    {line : Bytes} (hline : line ∈ storeLines keys) : newline ∉ line ∧ 0 ∉ line := by
  rcases List.mem_cons.1 hline with rfl | hline
  · decide +kernel
  · obtain ⟨e, he, hline⟩ := List.mem_flatMap.1 hline
    unfold keyLines at hline
    split_ifs at hline with hnil
    · cases hline
    · have hkey := readable_of_mem h hclean he hnil
      rcases List.mem_cons.1 hline with rfl | hline
      · have hw := hkey.ok.isPath_writtenPath
        have hclean := hkey.clean
        rw [← hkey.ok.written, mem_lowerAscii (by decide), mem_lowerAscii (by decide)] at hclean
        rw [sectionName, if_pos hw.ne_nil]
        have ht : IsLineText (openBracket :: e.2.writtenPath ++ [closeBracket]) :=
          .delimited hclean.1 hw.nul (by decide) (by decide)
        exact ⟨ht.newline, ht.nul⟩
      · obtain ⟨⟨n, v⟩, hv, hmap⟩ := List.mem_filterMap.1 hline
        obtain ⟨text, htext, rfl⟩ := Option.map_eq_some_iff.1 hmap
        obtain ⟨-, hn, hz, -⟩ := hkey.valueName hv
        have ht := isLineText_valueLine hn hz (isLineText_serializeValueText htext)
        exact ⟨ht.newline, ht.nul⟩

theorem parseLine_header (st : Parsed) :
    parseLine st (ascii "# swinx registry database") = st := by
  rfl

/-- **What comes back**: every value that is written, as the reader understands it. -/
theorem look_reread {keys : Keys} (h : WellFormed keys) (hfits : FitsBuffer keys)
    (hclean : CleanNames keys) (path n : Bytes) :
    look (reread keys) path n = rewritten keys path n := by
  have hlines : ∀ line ∈ storeLines keys, newline ∉ line ∧ 0 ∉ line ∧ line.length ≤ 2047 :=
    fun line hline => by
      obtain ⟨hn, hz⟩ := lines_ok h hclean hline
      exact ⟨hn, hz, hfits line hline⟩
  obtain ⟨hgrows, hread⟩ := foldl_entries (fun e he => readable_of_mem h hclean he)
    (SortedMap.empty, [])
  have hreread : reread keys =
      ((keys.entries.flatMap fun e => keyLines e.1 e.2).foldl parseLine (.empty, [])).1 := by
    rw [reread, parseIniStream, serializeStore, foldl_readLines hlines, storeLines,
      List.foldl_cons, parseLine_header]
  rw [← hreread] at hgrows hread
  cases hg : rewritten keys path n with
  | none =>
    rcases hgrows path n with he | he
    · exact he
    · rw [he, hg]
  | some x =>
    obtain ⟨⟨name, v⟩, hlook, hmap⟩ := Option.bind_eq_some_iff.1 hg
    obtain ⟨text, htext, -⟩ := Option.map_eq_some_iff.1 hmap
    obtain ⟨key, hkey, hv, -⟩ := look_eq_some_iff_mem.1 hlook
    rw [hread path key hkey n v hv (by simp [htext]), hg]

theorem survives_rewritten {keys : Keys} {path n name : Bytes} {v : RegistryValue}
    (h : look keys path n = some (name, v)) :
    Survives (look keys path n) (rewritten keys path n) ↔ ValueOk v := by
  rw [rewritten, h, Option.bind_some, ← sameValue_iff]
  cases htext : serializeValueText v with
  | none => simp [Survives]
  | some text => simp [Survives]

/-- **Well-formed stores whose lines fit the buffer.** -/
theorem WellFormed.roundTrips {keys : Keys} (h : WellFormed keys) (hfits : FitsBuffer keys) :
    RoundTrips keys ↔ Writable keys := by
  rw [writable_iff]
  constructor
  · intro hrt
    have hclean : CleanNames keys := by
      intro path n hne
      have hsurvives := hrt path ⟨n, hne⟩ n
      have hcome : look (reread keys) path n ≠ none := by
        intro hnone
        obtain ⟨x, hx⟩ := Option.ne_none_iff_exists'.1 hne
        rw [hx, hnone] at hsurvives
        exact hsurvives
      exact cleanNames_parseIniStream cleanNames_empty _ path n hcome
    refine ⟨hclean, fun path n name v hlook => ?_⟩
    rw [← survives_rewritten hlook, ← look_reread h hfits hclean]
    exact hrt path ⟨n, by simp [hlook]⟩ n
  · rintro ⟨hclean, hvalue⟩ path - n
    rw [look_reread h hfits hclean]
    cases hlook : look keys path n with
    | none =>
      rw [rewritten, hlook]
      trivial
    | some x =>
      rw [← hlook]
      exact (survives_rewritten hlook).2 (hvalue path n x.1 x.2 hlook)

/-- **The round trip of every store the calls can build.**  If every line fits the buffer, the
store survives exactly if no path, name or value of it is of the kinds that cannot be written. -/
theorem roundTrips_iff {st₀ st : RegistryStore} {file : Option Bytes}
    (h : lts.Reachable (RegMountDatabase st₀ file) st) (hfits : FitsBuffer st.keys) :
    RoundTrips st.keys ↔ Writable st.keys :=
  (wellFormed_of_reachable h).roundTrips hfits

/-- A program keeps a text, a number, bytes and a directory. -/
def writeSettings : List Call :=
  [.createKey HKEY_CURRENT_USER (ascii "Software\\App") true,
    .setValue 0x00010001 (some (ascii "Title")) ⟨REG_SZ, ascii "a=[b]" ++ [0]⟩ true,
    .setValue 0x00010001 none ⟨REG_DWORD, [1, 2, 3, 255]⟩ false,
    .setValue 0x00010001 (some (ascii "Blob")) ⟨REG_BINARY, [0, 34, 10]⟩ true,
    .setValue 0x00010001 (some (ascii "Dir")) ⟨2, ascii "%HOME%"⟩ true,
    .deleteValue 0x00010001 (some (ascii "BLOB")) true]

theorem roundTrips_writeSettings :
    (look (execAll (RegMountDatabase {} none) writeSettings).keys
      (ascii "hkey_current_user\\software\\app") (ascii "dir")).isSome ∧
    RoundTrips (execAll (RegMountDatabase {} none) writeSettings).keys := by
  have hreach : lts.Reachable (RegMountDatabase {} none)
      (execAll (RegMountDatabase {} none) writeSettings) := ⟨writeSettings, run_eq_execAll ..⟩
  refine ⟨by decide +kernel, (roundTrips_iff hreach ?_).2 ?_⟩
  · decide +kernel
  · decide +kernel

/-- A text that looks like a number comes back as one. -/
theorem text_becomes_dword : ∃ st, lts.run (RegMountDatabase {} none)
    [.createKey HKEY_CURRENT_USER (ascii "App") true,
      .setValue 0x00010001 (some (ascii "Title")) ⟨REG_SZ, ascii "dword:1"⟩ true] = some st ∧
    ¬ RoundTrips st.keys := by
  refine ⟨_, run_eq_execAll .., fun h => ?_⟩
  have := h (ascii "hkey_current_user\\app") ⟨ascii "title", by decide +kernel⟩ (ascii "title")
  revert this
  decide +kernel

end Registry

end Swinx
