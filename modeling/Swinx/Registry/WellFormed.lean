import Swinx.Registry.Line

/-!
# Well-formed stores

In a well-formed store every key is stored under its path in lower case, and every value under its
name in lower case.  Creating keys, storing values and reading a file keep a store well-formed.
-/

namespace Swinx

namespace Registry

/-! ### Written paths and index paths -/

theorem singleSeparators_lowerAscii {w : Bytes} :
    SingleSeparators (lowerAscii w) ↔ SingleSeparators w := by
  simp [SingleSeparators, lowerAscii, List.isChain_map, lowerByte_eq_backslash]

theorem isPath_lowerAscii {w : Bytes} : IsPath (lowerAscii w) ↔ IsPath w := by
  have hlast : (lowerAscii w).getLast? ≠ some backslash ↔ w.getLast? ≠ some backslash := by
    simp [lowerAscii, List.getLast?_map, lowerByte_eq_backslash]
  have hcollapsed : collapseSeparators (lowerAscii w) = lowerAscii w ↔
      collapseSeparators w = w := by
    rw [collapseSeparators_eq_self_iff, collapseSeparators_eq_self_iff,
      singleSeparators_lowerAscii, hlast]
  have hroot : lowerAscii (rootOf (lowerAscii w)) = lowerAscii (rootOf w) := by
    rw [rootOf_lowerAscii, lowerAscii_lowerAscii]
  have hnul : 0 ∈ lowerAscii w ↔ 0 ∈ w := mem_lowerAscii (by decide)
  constructor
  · rintro ⟨h₁, h₂, h₃⟩
    exact ⟨hcollapsed.1 h₁, hroot ▸ h₂, mt hnul.2 h₃⟩
  · rintro ⟨h₁, h₂, h₃⟩
    exact ⟨hcollapsed.2 h₁, hroot ▸ h₂, mt hnul.1 h₃⟩

/-- **Two spellings of a parent give two spellings of the sub-key.** -/
theorem lowerAscii_child (w sub : Bytes) :
    lowerAscii (collapseSeparators (lowerAscii w ++ backslash :: sub)) =
      lowerAscii (collapseSeparators (w ++ backslash :: sub)) := by
  rw [lowerAscii_collapseSeparators, lowerAscii_collapseSeparators (w ++ backslash :: sub)]
  simp [lowerAscii, Function.comp_def, lowerByte_lowerByte]

/-- **A well-formed key at its path.** -/
structure KeyOk (path : Bytes) (key : RegistryKey) : Prop where
  isPath : IsPath path
  /-- The written path is a spelling of the path. -/
  written : lowerAscii key.writtenPath = path
  /-- Every value has a name, which is a spelling of what it is stored under. -/
  name : ∀ n v, key.values.find? n = some v →
    ∃ name, key.valueNames.find? n = some name ∧ lowerAscii name = n ∧ 0 ∉ name

theorem KeyOk.isPath_writtenPath {path : Bytes} {key : RegistryKey} (h : KeyOk path key) :
    IsPath key.writtenPath :=
  isPath_lowerAscii.1 (h.written ▸ h.isPath)

theorem KeyOk.new {w displayName : Bytes} (hw : IsPath w) :
    KeyOk (lowerAscii w) { displayName := displayName, writtenPath := w } :=
  ⟨isPath_lowerAscii.2 hw, rfl, by simp⟩

theorem KeyOk.insert {path name : Bytes} {key : RegistryKey} (h : KeyOk path key) (hz : 0 ∉ name)
    (v : RegistryValue) :
    KeyOk path
      { key with
        values := key.values.insert (lowerAscii name) v
        valueNames := key.valueNames.insert (lowerAscii name) name } where
  isPath := h.isPath
  written := h.written
  name n v' hv := by
    simp only [SortedMap.find?_insert] at hv ⊢
    split_ifs at hv ⊢ with hn
    · exact ⟨name, rfl, hn.symm, hz⟩
    · exact h.name n v' hv

theorem KeyOk.erase {path : Bytes} {key : RegistryKey} (h : KeyOk path key) (n : Bytes) :
    KeyOk path { key with values := key.values.erase n, valueNames := key.valueNames.erase n } where
  isPath := h.isPath
  written := h.written
  name n' v hv := by
    obtain ⟨hv, hne⟩ := SortedMap.find?_erase.1 hv
    obtain ⟨name, hname, hlower⟩ := h.name n' v hv
    exact ⟨name, SortedMap.find?_erase.2 ⟨hname, hne⟩, hlower⟩

/-! ### Stores -/

/-- **Every key is well-formed.** -/
def WellFormed (keys : Keys) : Prop := ∀ path key, keys.find? path = some key → KeyOk path key

theorem wellFormed_empty : WellFormed .empty := by
  intro path key h
  cases h

theorem WellFormed.insert {keys : Keys} (h : WellFormed keys) {path : Bytes} {key : RegistryKey}
    (hkey : KeyOk path key) : WellFormed (keys.insert path key) := by
  intro path' key' hfind
  rw [SortedMap.find?_insert] at hfind
  split_ifs at hfind with hp
  · cases hfind
    exact hp ▸ hkey
  · exact h path' key' hfind

theorem WellFormed.erase {keys : Keys} (h : WellFormed keys) (path : Bytes) :
    WellFormed (keys.erase path) :=
  fun path' key hfind => h path' key (SortedMap.find?_erase.1 hfind).1

theorem WellFormed.ensureOne {keys : Keys} (h : WellFormed keys) {w : Bytes} (hw : IsPath w) :
    WellFormed (ensureOne keys (lowerAscii w) w) := by
  unfold Registry.ensureOne
  split_ifs
  · exact h.insert (.new hw)
  · exact h

theorem WellFormed.ensureKeyAux {keys : Keys} (h : WellFormed keys) {w r : Bytes}
    (hw : IsPath (w ++ r)) :
    WellFormed (ensureKeyAux keys (lowerAscii w) w (r.map fun c => (lowerByte c, c))) := by
  induction r generalizing keys w with
  | nil =>
    rw [List.append_nil] at hw
    exact h.ensureOne hw
  | cons c r ih =>
    have hlower : lowerAscii w ++ [lowerByte c] = lowerAscii (w ++ [c]) := by simp [lowerAscii]
    rw [List.map_cons, Registry.ensureKeyAux, hlower]
    refine ih ?_ (by simpa using hw)
    split_ifs with hc
    · rw [lowerByte_eq_backslash.1 hc] at hw
      exact h.ensureOne hw.parent
    · exact h

theorem zip_lowerAscii (w : Bytes) :
    (lowerAscii w).zip w = w.map fun c => (lowerByte c, c) := by
  induction w with
  | nil => rfl
  | cons c w ih => exact congrArg ((lowerByte c, c) :: ·) ih

/-- **Creating a key and its parents.** -/
theorem WellFormed.ensureKey {keys : Keys} (h : WellFormed keys) {w : Bytes} (hw : IsPath w) :
    WellFormed (ensureKey keys (lowerAscii w) w) := by
  rw [Registry.ensureKey, zip_lowerAscii]
  exact h.ensureKeyAux (w := []) hw

theorem isSome_find?_ensureKeyAux (keys : Keys) (part partWritten : Bytes)
    (l : List (UInt8 × UInt8)) (hne : part ++ l.map Prod.fst ≠ []) :
    ((ensureKeyAux keys part partWritten l).find? (part ++ l.map Prod.fst)).isSome := by
  induction l generalizing keys part partWritten with
  | nil =>
    rw [List.map_nil, List.append_nil] at hne ⊢
    rw [ensureKeyAux, ensureOne]
    split_ifs with h
    · simp
    · simpa [hne, Option.isSome_iff_ne_none] using h
  | cons c l ih =>
    have := ih (if c.1 = backslash then ensureOne keys part partWritten else keys)
      (part ++ [c.1]) (partWritten ++ [c.2]) (by simp)
    simpa [ensureKeyAux] using this

theorem isSome_find?_ensureKey (keys : Keys) {w : Bytes} (hw : w ≠ []) :
    ((ensureKey keys (lowerAscii w) w).find? (lowerAscii w)).isSome := by
  have hfst : ((lowerAscii w).zip w).map Prod.fst = lowerAscii w :=
    List.map_fst_zip (by simp [lowerAscii])
  have := isSome_find?_ensureKeyAux keys [] [] ((lowerAscii w).zip w)
  rw [hfst, List.nil_append] at this
  exact this (by simpa [lowerAscii] using hw)

theorem WellFormed.ensureRootKeys {keys : Keys} (h : WellFormed keys) :
    WellFormed (ensureRootKeys keys) := by
  unfold Registry.ensureRootKeys
  have hroots : ∀ root ∈ roots, IsPath root ∧ lowerAscii root = root := fun root hr =>
    ⟨.of_mem_roots hr, by
      revert root
      decide +kernel⟩
  generalize roots = l at hroots
  induction l generalizing keys with
  | nil => exact h
  | cons root l ih =>
    obtain ⟨hpath, hlower⟩ := hroots root List.mem_cons_self
    refine ih ?_ fun r hr => hroots r (List.mem_cons_of_mem root hr)
    dsimp only
    split_ifs
    · have hkey : KeyOk (lowerAscii root) { displayName := upperAscii root, writtenPath := root } :=
        .new hpath
      rw [hlower] at hkey
      exact h.insert hkey
    · exact h

theorem WellFormed.storeValue {keys : Keys} (h : WellFormed keys) {path name : Bytes}
    (hpath : (keys.find? path).isSome) (hz : 0 ∉ name) (text : Bytes) :
    WellFormed (storeValue keys path name text) := by
  obtain ⟨key, hkey⟩ := Option.isSome_iff_exists.1 hpath
  unfold Registry.storeValue
  rw [hkey]
  exact h.insert ((h path key hkey).insert hz _)

/-! ### Reading a file -/

/-- The keys read so far are well-formed, and the current key is one of them. -/
structure ParsedOk (st : Parsed) : Prop where
  keys : WellFormed st.1
  current : st.2 = [] ∨ (st.1.find? st.2).isSome

theorem ParsedOk.parseLine {st : Parsed} (h : ParsedOk st) (line : Bytes) :
    ParsedOk (parseLine st line) := by
  have hz : ∀ {s : Bytes}, s ⊆ trim (cstr line) → 0 ∉ s := fun hs hz =>
    zero_notMem_cstr line (mem_of_mem_trim (hs hz))
  rcases parseLine_cases st line with
    he | he | ⟨w, hroot, -, hw, he⟩ | ⟨name, text, hcur, -, hn, he⟩
  · rwa [he]
  · rw [he]
    exact ⟨h.keys, .inl rfl⟩
  · have hpath := IsPath.of_section hroot (hz hw)
    rw [he]
    exact ⟨h.keys.ensureKey hpath, .inr (isSome_find?_ensureKey st.1 hpath.ne_nil)⟩
  · have hstored : 0 ∉ storedName name := fun hzero => hz hn (mem_of_mem_storedName hzero)
    rw [he]
    refine ⟨h.keys.storeValue (h.current.resolve_left hcur) hstored text, .inr ?_⟩
    simp [Registry.storeValue]

/-- **Whatever a file contains, it is read into a well-formed store.** -/
theorem WellFormed.parseIniStream {keys : Keys} (h : WellFormed keys) (file : Bytes) :
    WellFormed (parseIniStream file keys) := by
  obtain ⟨current, hok⟩ := parseIniStream_induction file
    (show ParsedOk (keys, []) from ⟨h, .inl rfl⟩) fun st line _ hst => hst.parseLine line
  exact hok.keys

end Registry

end Swinx
