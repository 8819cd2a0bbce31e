import Swinx.Registry.Api

/-!
# The structure of the registry

The keys form a forest whose roots are the predefined keys: with a key its ancestors exist, an
open handle is the handle of a key, and a key is called as the last component of its path says.
Loading, mounting and all calls keep this, but for one thing: `RegDeleteKey` with a sub-key of
backslashes deletes the key of the handle itself, which may be a predefined one.

* `structured_iff` — the structure lasts exactly as long as no predefined key is deleted.
-/

namespace Swinx

namespace Registry

/-- The ancestors of a key are keys. -/
def AncestorsExist (keys : Keys) : Prop :=
  ∀ s t, (keys.find? (s ++ backslash :: t)).isSome → (keys.find? s).isSome

/-- The predefined keys exist. -/
def RootsExist (keys : Keys) : Prop := ∀ root ∈ roots, (keys.find? root).isSome

/-- The last component of a path. -/
def lastComponent (path : Bytes) : Bytes := path.rtakeWhile (· ≠ backslash)

/-- A key has its own name and a name for each of its values. -/
structure Named (path : Bytes) (key : RegistryKey) : Prop where
  displayName : lowerAscii key.displayName = lastComponent path
  domain : ∀ n, (key.values.find? n).isSome ↔ (key.valueNames.find? n).isSome

/-- **The structure of the registry.** -/
structure Structured (st : RegistryStore) : Prop where
  ancestors : AncestorsExist st.keys
  roots : RootsExist st.keys
  handles : ∀ h path, st.openHandles.find? h = some path → (st.keys.find? path).isSome
  named : ∀ path key, st.keys.find? path = some key → Named path key

/-- The call does not delete a predefined key: a `RegDeleteKey` that resolves to one finds a key
below it. -/
def KeepsRoots (st : RegistryStore) : Call → Prop
  | .deleteKey hKey lpSubKey _ =>
    cstr (lpSubKey.getD []) ≠ [] → ∀ path ∈ resolvePath st hKey (cstr (lpSubKey.getD [])),
      path ∈ roots → hasSubKey st.keys path = true
  | _ => True

theorem lowerAscii_lastComponent (w : Bytes) :
    lowerAscii (lastComponent w) = lastComponent (lowerAscii w) := by
  have hp : ((fun c => decide (c ≠ backslash)) ∘ lowerByte) = fun c => decide (c ≠ backslash) := by
    funext c
    simp [lowerByte_eq_backslash]
  rw [lastComponent, lastComponent, List.rtakeWhile, List.rtakeWhile, lowerAscii, lowerAscii,
    ← List.map_reverse, List.takeWhile_map, hp, List.map_reverse]

theorem Named.new (w : Bytes) :
    Named (lowerAscii w) { displayName := lastComponent w, writtenPath := w } :=
  ⟨lowerAscii_lastComponent w, by simp⟩

theorem Named.insert {path : Bytes} {key : RegistryKey} (h : Named path key) (n : Bytes)
    (v : RegistryValue) (name : Bytes) :
    Named path
      { key with values := key.values.insert n v, valueNames := key.valueNames.insert n name } where
  displayName := h.displayName
  domain n' := by
    simp only [SortedMap.find?_insert]
    split_ifs
    · simp
    · exact h.domain n'

theorem Named.erase {path : Bytes} {key : RegistryKey} (h : Named path key) (n : Bytes) :
    Named path
      { key with values := key.values.erase n, valueNames := key.valueNames.erase n } where
  displayName := h.displayName
  domain n' := by
    have hdomain := h.domain n'
    simp only [Option.isSome_iff_exists, SortedMap.find?_erase] at hdomain ⊢
    exact ⟨fun ⟨v, hv, hne⟩ => (hdomain.1 ⟨v, hv⟩).imp fun _ hw => ⟨hw, hne⟩,
      fun ⟨w, hw, hne⟩ => (hdomain.2 ⟨w, hw⟩).imp fun _ hv => ⟨hv, hne⟩⟩

/-! ### Keys that are added -/

/-- What is kept about the keys alone. -/
structure Forest (keys : Keys) : Prop where
  ancestors : AncestorsExist keys
  named : ∀ path key, keys.find? path = some key → Named path key

theorem isSome_find?_insert {keys : Keys} {path p : Bytes} {key : RegistryKey} :
    ((keys.insert path key).find? p).isSome ↔ p = path ∨ (keys.find? p).isSome := by
  rw [SortedMap.find?_insert]
  split_ifs with hp
  · simp [hp]
  · simp [hp]

theorem Forest.insert {keys : Keys} (h : Forest keys) {path : Bytes} {key : RegistryKey}
    (hancestors : ∀ s t, path = s ++ backslash :: t → (keys.find? s).isSome)
    (hkey : Named path key) : Forest (keys.insert path key) where
  ancestors s t hst := by
    rw [isSome_find?_insert] at hst ⊢
    rcases hst with he | hst
    · exact .inr (hancestors s t he.symm)
    · exact .inr (h.ancestors s t hst)
  named path' key' hfind := by
    rw [SortedMap.find?_insert] at hfind
    split_ifs at hfind with hp
    · cases hfind
      exact hp ▸ hkey
    · exact h.named path' key' hfind

theorem Forest.update {keys : Keys} (h : Forest keys) {path : Bytes} {key key' : RegistryKey}
    (hfind : keys.find? path = some key) (hkey : Named path key') :
    Forest (keys.insert path key') :=
  h.insert (fun s t he => h.ancestors s t (by rw [← he, hfind]; rfl)) hkey

theorem isSome_find?_ensureOne {keys : Keys} {part partWritten p : Bytes}
    (h : (keys.find? p).isSome) : ((ensureOne keys part partWritten).find? p).isSome := by
  unfold ensureOne
  split_ifs
  · exact isSome_find?_insert.2 (.inr h)
  · exact h

theorem isSome_find?_ensureKeyAux_of {keys : Keys} {part partWritten p : Bytes}
    {l : List (UInt8 × UInt8)} (h : (keys.find? p).isSome) :
    ((ensureKeyAux keys part partWritten l).find? p).isSome := by
  induction l generalizing keys part partWritten with
  | nil => exact isSome_find?_ensureOne h
  | cons c l ih =>
    rw [ensureKeyAux]
    refine ih ?_
    split_ifs
    · exact isSome_find?_ensureOne h
    · exact h

theorem Forest.ensureOne {keys : Keys} (h : Forest keys) {w : Bytes}
    (hancestors : ∀ s t, lowerAscii w = s ++ backslash :: t → (keys.find? s).isSome) :
    Forest (ensureOne keys (lowerAscii w) w) := by
  unfold Registry.ensureOne
  split_ifs
  · exact h.insert hancestors (.new w)
  · exact h

theorem Forest.ensureKeyAux {keys : Keys} (h : Forest keys) {w r : Bytes} (hw : IsPath (w ++ r))
    (hancestors : ∀ s t, lowerAscii w = s ++ backslash :: t → (keys.find? s).isSome) :
    Forest (ensureKeyAux keys (lowerAscii w) w (r.map fun c => (lowerByte c, c))) := by
  induction r generalizing keys w with
  | nil => exact h.ensureOne hancestors
  | cons c r ih =>
    have hlower : lowerAscii w ++ [lowerByte c] = lowerAscii (w ++ [c]) := by simp [lowerAscii]
    rw [List.map_cons, Registry.ensureKeyAux, hlower]
    refine ih ?_ (by simpa using hw) fun s t hst => ?_
    · split_ifs
      · exact h.ensureOne hancestors
      · exact h
    · rw [← hlower] at hst
      -- The last separator is the byte that has just been read, or an earlier one.
      rcases List.eq_nil_or_concat t with rfl | ⟨t, d, rfl⟩
      · obtain ⟨rfl, hc⟩ := List.append_inj' hst rfl
        have hc : lowerByte c = backslash := by simpa using hc
        rw [if_pos hc]
        rw [lowerByte_eq_backslash.1 hc] at hw
        have hne : lowerAscii w ≠ [] := by simpa [lowerAscii] using hw.parent.ne_nil
        unfold Registry.ensureOne
        split_ifs with hnone
        · simp
        · simpa [hne, Option.isSome_iff_ne_none] using hnone
      · rw [List.concat_eq_append, ← List.cons_append, ← List.append_assoc] at hst
        obtain ⟨he, -⟩ := List.append_inj' hst rfl
        have hs := hancestors s t he
        split_ifs
        · exact isSome_find?_ensureOne hs
        · exact hs

theorem Forest.ensureKey {keys : Keys} (h : Forest keys) {w : Bytes} (hw : IsPath w) :
    Forest (ensureKey keys (lowerAscii w) w) := by
  rw [Registry.ensureKey, zip_lowerAscii]
  exact h.ensureKeyAux (w := []) hw fun s t he => by simp [lowerAscii] at he

/-! ### Loading a file -/

theorem forest_empty : Forest .empty where
  ancestors _ _ h := by cases h
  named _ _ h := by cases h

theorem Forest.ensureRootKeys {keys : Keys} (h : Forest keys) :
    Forest (ensureRootKeys keys) ∧ RootsExist (Registry.ensureRootKeys keys) ∧
      ∀ p, (keys.find? p).isSome → ((Registry.ensureRootKeys keys).find? p).isSome := by
  have hroots : ∀ root ∈ roots, backslash ∉ root ∧ lowerAscii root = root ∧
      lowerAscii (upperAscii root) = lastComponent root := by decide +kernel
  unfold Registry.ensureRootKeys RootsExist
  generalize roots = l at *
  induction l generalizing keys with
  | nil => exact ⟨h, by simp, fun p hp => hp⟩
  | cons root l ih =>
    obtain ⟨hroot, hlower, hdisplay⟩ := hroots root List.mem_cons_self
    have hrest := fun r hr => hroots r (List.mem_cons_of_mem root hr)
    rw [List.foldl_cons]
    split_ifs with hnone
    · have hkey : Named root { displayName := upperAscii root, writtenPath := root } :=
        ⟨hdisplay, by simp⟩
      have hinsert := h.insert (fun s t he => absurd (he ▸ by simp) hroot) hkey
      obtain ⟨h₁, h₂, h₃⟩ := ih hinsert hrest
      refine ⟨h₁, fun r hr => ?_, fun p hp => h₃ p (isSome_find?_insert.2 (.inr hp))⟩
      rcases List.mem_cons.1 hr with rfl | hr
      · exact h₃ r (isSome_find?_insert.2 (.inl rfl))
      · exact h₂ r hr
    · obtain ⟨h₁, h₂, h₃⟩ := ih h hrest
      refine ⟨h₁, fun r hr => ?_, h₃⟩
      rcases List.mem_cons.1 hr with rfl | hr
      · exact h₃ r (by simpa [Option.isSome_iff_ne_none] using hnone)
      · exact h₂ r hr

/-- What is kept while a file is read. -/
structure ParsedForest (st : Parsed) : Prop extends ParsedOk st where
  forest : Forest st.1
  roots : RootsExist st.1

theorem ParsedForest.parseLine {st : Parsed} (h : ParsedForest st) (line : Bytes) :
    ParsedForest (parseLine st line) := by
  refine ⟨h.toParsedOk.parseLine line, ?_, ?_⟩
  all_goals
    rcases parseLine_cases st line with
      he | he | ⟨w, hroot, -, hw, he⟩ | ⟨name, text, hcur, -, -, he⟩
    · rw [he]
      first | exact h.forest | exact h.roots
    · rw [he]
      first | exact h.forest | exact h.roots
    · rw [he]
      have hz : 0 ∉ w := fun hz => zero_notMem_cstr line (mem_of_mem_trim (hw hz))
      first
        | exact h.forest.ensureKey (.of_section hroot hz)
        | exact fun root hr => isSome_find?_ensureKeyAux_of (h.roots root hr)
    · rw [he]
      obtain ⟨key, hkey⟩ := Option.isSome_iff_exists.1 (h.current.resolve_left hcur)
      unfold Registry.storeValue
      rw [hkey]
      first
        | exact h.forest.update hkey ((h.forest.named _ _ hkey).insert _ _ _)
        | exact fun root hr => isSome_find?_insert.2 (.inr (h.roots root hr))

/-- **Whatever a file contains, the keys read from it form a forest with all its roots.** -/
theorem forest_parseIniStream {keys : Keys} (hok : WellFormed keys) (h : Forest keys)
    (hroots : RootsExist keys) (file : Bytes) :
    Forest (parseIniStream file keys) ∧ RootsExist (parseIniStream file keys) := by
  obtain ⟨current, hforest⟩ := parseIniStream_induction file
    (show ParsedForest (keys, []) from ⟨⟨hok, .inl rfl⟩, h, hroots⟩)
    fun st line _ hst => hst.parseLine line
  exact ⟨hforest.forest, hforest.roots⟩

/-! ### Keys that are deleted -/

theorem take_eq_of_between : ∀ {p e t : Bytes}, ¬ e < p → ¬ p ++ t < e → e.take p.length = p
  | [], _, _, _, _ => rfl
  | c :: p, [], t, h₁, _ => absurd (List.nil_lt_cons c p) h₁
  | c :: p, d :: e, t, h₁, h₂ => by
    rw [List.cons_lt_cons_iff, not_or, not_and] at h₁
    rw [List.cons_append, List.cons_lt_cons_iff, not_or, not_and] at h₂
    obtain rfl : c = d := le_antisymm (not_lt.1 h₁.1) (not_lt.1 h₂.1)
    rw [List.length_cons, List.take_succ_cons, take_eq_of_between (h₁.2 rfl) (h₂.2 rfl)]

theorem not_append_lt : ∀ p t : Bytes, ¬ p ++ t < p
  | [], t => List.not_lt_nil t
  | c :: p, t => by
    rw [List.cons_append, List.cons_lt_cons_iff, not_or, not_and]
    exact ⟨lt_irrefl c, fun _ => not_append_lt p t⟩

theorem hasSubKey_of {keys : Keys} {path t : Bytes}
    (h : (keys.find? (path ++ backslash :: t)).isSome) : hasSubKey keys path = true := by
  obtain ⟨key, hkey⟩ := Option.isSome_iff_exists.1 h
  have hsplit : path ++ backslash :: t = (path ++ [backslash]) ++ t := by simp
  rw [hsplit] at hkey
  obtain ⟨e, he, h₁, h₂⟩ := SortedMap.exists_lowerBound hkey (not_append_lt _ _)
  have htake := take_eq_of_between h₁ h₂
  rw [List.length_append, List.length_singleton] at htake
  simp [hasSubKey, he, htake]

theorem Forest.erase {keys : Keys} (h : Forest keys) {path : Bytes}
    (hpath : hasSubKey keys path = false) : Forest (keys.erase path) where
  ancestors s t hst := by
    obtain ⟨key, hkey⟩ := Option.isSome_iff_exists.1 hst
    have hold : (keys.find? (s ++ backslash :: t)).isSome :=
      Option.isSome_iff_exists.2 ⟨key, (SortedMap.find?_erase.1 hkey).1⟩
    obtain ⟨key', hkey'⟩ := Option.isSome_iff_exists.1 (h.ancestors s t hold)
    have hne : s ≠ path := by
      rintro rfl
      rw [hasSubKey_of hold] at hpath
      cases hpath
    rw [SortedMap.find?_erase.2 ⟨hkey', hne⟩]
    rfl
  named path' key hkey := h.named path' key (SortedMap.find?_erase.1 hkey).1

/-- What every call keeps, whether or not the predefined keys exist. -/
structure Inv (st : RegistryStore) : Prop where
  ok : StoreOk st
  forest : Forest st.keys
  handles : ∀ h path, st.openHandles.find? h = some path → (st.keys.find? path).isSome

namespace Inv

variable {st : RegistryStore}

theorem handles_insert {keys : Keys} {path : Bytes} (h : Inv st)
    (hkeys : ∀ p, (st.keys.find? p).isSome → (keys.find? p).isSome)
    (hpath : (keys.find? path).isSome) (h₁ : HKEY) :
    ∀ h' p, (st.openHandles.insert h₁ path).find? h' = some p → (keys.find? p).isSome := by
  intro h' p hfind
  rw [SortedMap.find?_insert] at hfind
  split_ifs at hfind
  · cases hfind
    exact hpath
  · exact hkeys p (h.handles h' p hfind)

/-- **Every call keeps the invariant.** -/
theorem exec (h : Inv st) (call : Call) : Inv (exec st call).2 := by
  have hok := h.ok.exec call
  have heffect := h.ok.effect call
  generalize (Registry.exec st call).2 = st' at *
  cases heffect with
  | nothing => exact h
  | closed hKey =>
    exact ⟨hok, h.forest,
      fun h' path hfind => h.handles h' path (SortedMap.find?_erase.1 hfind).1⟩
  | opened hpath hkey => exact ⟨hok, h.forest, h.handles_insert (fun _ hp => hp) hkey _⟩
  | created hw =>
    exact ⟨hok, h.forest.ensureKey hw,
      h.handles_insert (fun p hp => isSome_find?_ensureKeyAux_of hp)
        (isSome_find?_ensureKey st.keys hw.ne_nil) _⟩
  | valueSet hkey hz value =>
    exact ⟨hok, h.forest.update hkey ((h.forest.named _ _ hkey).insert _ _ _),
      fun h' p hfind => isSome_find?_insert.2 (.inr (h.handles h' p hfind))⟩
  | valueDeleted hkey n =>
    exact ⟨hok, h.forest.update hkey ((h.forest.named _ _ hkey).erase n),
      fun h' p hfind => isSome_find?_insert.2 (.inr (h.handles h' p hfind))⟩
  | keyDeleted hcall hne hpath hsub =>
    refine ⟨hok, h.forest.erase hsub, fun h' p hfind => ?_⟩
    obtain ⟨hfind, hp⟩ := SortedMap.find?_filter.1 hfind
    obtain ⟨key, hkey⟩ := Option.isSome_iff_exists.1 (h.handles h' p hfind)
    exact Option.isSome_iff_exists.2 ⟨key, SortedMap.find?_erase.2 ⟨hkey, by simpa using hp⟩⟩

/-- **A call deletes a predefined key, or all are still there.** -/
theorem rootsExist_exec_iff (h : Inv st) (hroots : RootsExist st.keys) (call : Call) :
    RootsExist (Registry.exec st call).2.keys ↔ KeepsRoots st call := by
  constructor
  · intro hroots'
    cases call with
    | deleteKey hKey lpSubKey flushed =>
      intro hne path hpath hroot
      by_contra hsub
      have hpath : resolvePath st hKey (cstr (lpSubKey.getD [])) = some path := hpath
      have hsome : (st.keys.find? path).isNone = false := by
        simpa [Option.isSome_iff_ne_none] using hroots path hroot
      have hdelete : (Registry.exec st (.deleteKey hKey lpSubKey flushed)).2.keys =
          st.keys.erase path := by
        simp [Registry.exec, RegDeleteKey, hne, hpath, hsome, hsub]
      have herased := hroots' path hroot
      rw [hdelete, Option.isSome_iff_exists] at herased
      obtain ⟨key, hkey⟩ := herased
      exact (SortedMap.find?_erase.1 hkey).2 rfl
    | _ => trivial
  · intro hkeeps root hroot
    have hsome := hroots root hroot
    have heffect := h.ok.effect call
    generalize (Registry.exec st call).2 = st' at *
    cases heffect with
    | nothing => exact hsome
    | closed hKey => exact hsome
    | opened hpath hkey => exact hsome
    | created hw => exact isSome_find?_ensureKeyAux_of hsome
    | valueSet hkey hz value => exact isSome_find?_insert.2 (.inr hsome)
    | valueDeleted hkey n => exact isSome_find?_insert.2 (.inr hsome)
    | @keyDeleted hKey lpSubKey flushed path hcall hne hpath hsub =>
      subst hcall
      have hother : root ≠ path := by
        rintro rfl
        rw [hkeeps hne root hpath hroot] at hsub
        cases hsub
      obtain ⟨key, hkey⟩ := Option.isSome_iff_exists.1 hsome
      exact Option.isSome_iff_exists.2 ⟨key, SortedMap.find?_erase.2 ⟨hkey, hother⟩⟩

theorem structured (h : Inv st) (hroots : RootsExist st.keys) : Structured st :=
  ⟨h.forest.ancestors, hroots, h.handles, h.forest.named⟩

end Inv

/-- How the store is filled: by mounting a database, or by loading the default file. -/
inductive Start
  | mounted (st : RegistryStore) (file : Option Bytes)
  | loaded (file : Option Bytes)

/-- The store before the first call. -/
def Start.store : Start → RegistryStore
  | .mounted st file => RegMountDatabase st file
  | .loaded file => loadRegistryFile {} file

theorem Start.inv (start : Start) : Inv start.store ∧ RootsExist start.store.keys := by
  obtain ⟨hforest, hroots, -⟩ := forest_empty.ensureRootKeys
  have hok := wellFormed_empty.ensureRootKeys
  have hparse := forest_parseIniStream hok hforest hroots
  have hloaded : ∀ file : Option Bytes, WellFormed (loadRegistryFile {} file).keys ∧
      Forest (loadRegistryFile {} file).keys ∧ RootsExist (loadRegistryFile {} file).keys := by
    intro file
    cases file with
    | none => exact ⟨hok, hforest, hroots⟩
    | some bytes => exact ⟨hok.parseIniStream bytes, hparse bytes⟩
  cases start with
  | mounted st file =>
    obtain ⟨-, h₂, h₃⟩ := hloaded file
    exact ⟨⟨.mount st file, h₂, fun h path hfind => by cases hfind⟩, h₃⟩
  | loaded file =>
    obtain ⟨h₁, h₂, h₃⟩ := hloaded file
    exact ⟨⟨⟨h₁, fun h path hfind => by cases hfind⟩, h₂, fun h path hfind => by cases hfind⟩, h₃⟩

/-- **The registry keeps its structure as long as no predefined key is deleted.**  In a run from
any file, every state is well structured if and only if every call keeps the predefined keys. -/
theorem structured_iff (start : Start) (calls : List Call) :
    lts.AllStates Structured start.store calls ↔ lts.AllSteps KeepsRoots start.store calls := by
  refine LTS.allStates_iff_allSteps (I := fun st => Inv st ∧ RootsExist st.keys)
    (fun st h => h.1.structured h.2) (fun st call st' h hkeeps hn => ?_)
    (fun st call st' h hn hst' => ?_) start.inv
  · cases hn
    exact ⟨h.1.exec call, (h.1.rootsExist_exec_iff h.2 call).2 hkeeps⟩
  · cases hn
    exact (h.1.rootsExist_exec_iff h.2 call).1 hst'.roots

/-- **A predefined key can be deleted**, by a sub-key of one backslash. -/
theorem root_deleted : ¬ lts.AllStates Structured (Start.mounted {} none).store
    [.deleteKey HKEY_CURRENT_USER (some [backslash]) true] := by
  intro h
  have hroot := (h.2 _ rfl).roots (ascii "hkey_current_user") (by decide +kernel)
  revert hroot
  decide +kernel

end Registry

end Swinx
