import Swinx.Registry.Query

/-!
# Enumerating sub-keys

`RegEnumKeyEx` finds the sub-keys of a key by a scan of the store from `path\` on: deeper keys are
in the same range, and a sibling whose name begins with the name of the key is outside of it.
`RegQueryInfoKey` announces sizes in bytes of UTF-8, for the `A` and the `W` form.

Pointers are given, and sizes fit a `DWORD`.  The class of a key, which is empty, and its time,
which is zero, are left out.

* `mem_subKeyEntries` — the scan finds the sub-keys.
* `nameLength_le` — a name has no more units than bytes, so the announced sizes of names suffice.
* `enumerates_iff` — a key is enumerated exactly, and the announced sizes suffice, if and only if
  the handle is an opened one and the texts fit.
-/

namespace Swinx

namespace Registry

open Uniconv

/-- The keys that the loop of `subKeyNames` takes. -/
def subKeyEntries (keys : Keys) (path : Bytes) : List (Bytes × RegistryKey) :=
  let below := path ++ [backslash]
  ((keys.entriesFrom below).takeWhile fun e => e.1.take below.length = below).filter fun e =>
    (e.1.drop below.length).all fun c => c ≠ backslash

/-- `subKeyNames` -/
def subKeyNames (keys : Keys) (path : Bytes) : List Bytes :=
  (subKeyEntries keys path).map fun e =>
    if e.2.displayName = [] then e.1.drop (path.length + 1) else e.2.displayName

variable (wide : Wide)

/-- The size of a name in a form. -/
def nameLength (form : Form) (name : Bytes) : ℕ :=
  match form with
  | .A => name.length
  | .W => towstringLength wide (cstr name)

/-- The units of a name in a form, with the one behind their end. -/
def nameUnits (form : Form) (name : Bytes) : List ℕ :=
  match form with
  | .A => name.map UInt8.toNat ++ [0]
  | .W => towstring wide 0 (cstr name)

/-- What an enumeration returns. -/
structure EnumReply where
  code : ReadCode
  /-- `*lpcchName` -/
  cchName : ℕ
  /-- The memory from `lpName` on. -/
  lpName : List ℕ
  deriving DecidableEq, Repr

/-- `RegEnumKeyExA` and `RegEnumKeyExW` -/
def RegEnumKeyEx (form : Form) (st : RegistryStore) (hKey : HKEY) (dwIndex : ℕ) (lpName : List ℕ)
    (cchName : ℕ) : EnumReply :=
  match st.openHandles.find? hKey with
  | none => ⟨.ERROR_INVALID_HANDLE, cchName, lpName⟩
  | some path =>
    match (subKeyNames st.keys path)[dwIndex]? with
    | none => ⟨.ERROR_NO_MORE_ITEMS, cchName, lpName⟩
    | some name =>
      if cchName ≤ nameLength wide form name then
        ⟨.ERROR_MORE_DATA, nameLength wide form name + 1, lpName⟩
      else
        ⟨.ERROR_SUCCESS, nameLength wide form name,
          nameUnits wide form name ++ lpName.drop (nameUnits wide form name).length⟩

/-- The numbers that `RegQueryInfoKey` reports; the class has the length 0. -/
structure KeyInfo where
  cSubKeys : ℕ
  cbMaxSubKeyLen : ℕ
  cValues : ℕ
  cbMaxValueNameLen : ℕ
  cbMaxValueLen : ℕ
  deriving DecidableEq, Repr

/-- The loops of `RegQueryInfoKey`. -/
def maxLength (ss : List Bytes) : ℕ := ss.foldl (fun n s => if s.length > n then s.length else n) 0

/-- `RegQueryInfoKeyA` and `RegQueryInfoKeyW` -/
def RegQueryInfoKey (st : RegistryStore) (hKey : HKEY) : Except ReadCode KeyInfo :=
  match st.openHandles.find? hKey with
  | none => .error .ERROR_INVALID_HANDLE
  | some path =>
    let names := subKeyNames st.keys path
    let key := (st.keys.find? path).getD {}
    .ok
      { cSubKeys := names.length
        cbMaxSubKeyLen := maxLength names
        cValues := key.values.entries.length
        cbMaxValueNameLen := maxLength (key.valueNames.entries.map Prod.snd)
        cbMaxValueLen := maxLength (key.values.entries.map fun v => v.2.data) }

/-- `p` is directly below `path`. -/
def IsSubKey (path p : Bytes) : Prop := ∃ name, p = path ++ backslash :: name ∧ backslash ∉ name

/-- The name of a key as it was written. -/
def writtenName (key : RegistryKey) : Bytes := lastComponent key.writtenPath

/-- The path that a handle stands for: that of an opened key, or a predefined one. -/
def keyOf (st : RegistryStore) (hKey : HKEY) : Option Bytes :=
  match st.openHandles.find? hKey with
  | some path => some path
  | none => (predefinedName hKey).map lowerAscii

/-- **A key is enumerated exactly**, with the sizes of `info`. -/
structure Enumerates (form : Form) (st : RegistryStore) (hKey : HKEY) (path : Bytes)
    (info : KeyInfo) : Prop where
  /-- Every sub-key has one index, and its written name is returned there. -/
  names : ∃ kids : List (Bytes × RegistryKey), (kids.map Prod.fst).Nodup ∧
    (∀ p key, (p, key) ∈ kids ↔ st.keys.find? p = some key ∧ IsSubKey path p) ∧
    info.cSubKeys = kids.length ∧
    (∀ i lpName, kids.length ≤ i →
      RegEnumKeyEx wide form st hKey i lpName (info.cbMaxSubKeyLen + 1) =
        ⟨.ERROR_NO_MORE_ITEMS, info.cbMaxSubKeyLen + 1, lpName⟩) ∧
    ∀ i kid, kids[i]? = some kid →
      (∀ lpName, RegEnumKeyEx wide form st hKey i lpName (info.cbMaxSubKeyLen + 1) =
        ⟨.ERROR_SUCCESS, nameLength wide form (writtenName kid.2),
          nameUnits wide form (writtenName kid.2) ++
            lpName.drop (nameLength wide form (writtenName kid.2) + 1)⟩) ∧
      ∀ lpName cchName, cchName ≤ nameLength wide form (writtenName kid.2) →
        ∃ n, RegEnumKeyEx wide form st hKey i lpName cchName = ⟨.ERROR_MORE_DATA, n, lpName⟩ ∧
          ∀ lpName, (RegEnumKeyEx wide form st hKey i lpName n).code = .ERROR_SUCCESS
  /-- The name of a value fits a buffer of the announced size. -/
  valueNames : ∀ key, st.keys.find? path = some key → ∀ n name, key.valueNames.find? n = some name →
    nameLength wide form name ≤ info.cbMaxValueNameLen
  /-- A buffer of the announced size suffices for every value, and is not overrun. -/
  values : ∀ key, st.keys.find? path = some key → ∀ name : ValueName, name.form = form →
    ∀ value, key.values.find? (lowerAscii (name.name wide)) = some value →
    ∃ bytes : Bytes, bytes.length ≤ info.cbMaxValueLen ∧
      ∀ memory, queryValue wide st hKey name (some memory) info.cbMaxValueLen =
        ⟨.ERROR_SUCCESS, some value.type, dword bytes.length,
          some (bytes ++ memory.drop bytes.length)⟩

/-- **Some value has as many bytes as a text in the form**, for every text of the key. -/
def TextsFit (form : Form) (keys : Keys) (path : Bytes) : Prop :=
  ∀ key, keys.find? path = some key → ∀ name : ValueName, name.form = form →
    ∀ value, key.values.find? (lowerAscii (name.name wide)) = some value → IsText value.type →
    ∃ n' value', key.values.find? n' = some value' ∧
      textBytes wide value.data form ≤ value'.data.length

/-! ### The scan -/

/-- **The scan finds all sub-keys** and no other keys. -/
theorem subKeyEntries_eq (keys : Keys) (path : Bytes) :
    subKeyEntries keys path =
      (keys.entries.filter fun e => e.1.take (path.length + 1) = path ++ [backslash]).filter
        fun e => backslash ∉ e.1.drop (path.length + 1) := by
  have hlen : (path ++ [backslash]).length = path.length + 1 := List.length_append
  have hscan := SortedMap.takeWhile_entriesFrom (m := keys) (k := path ++ [backslash])
    (p := fun e => e.1.take (path.length + 1) = path ++ [backslash]) (fun e he => ?_)
    fun e e' hlow hlt he' => ?_
  · have hname : ∀ s : Bytes, (s.all fun c => c ≠ backslash) = decide (backslash ∉ s) := by
      intro s
      rw [Bool.eq_iff_iff, List.all_eq_true, decide_eq_true_eq]
      simp only [decide_eq_true_eq]
      exact ⟨fun h hmem => h _ hmem rfl, fun h c hc heq => h (heq ▸ hc)⟩
    simp only [subKeyEntries, hlen, hname]
    rw [hscan]
  · rw [decide_eq_true_eq] at he
    rw [← List.take_append_drop (path.length + 1) e.1, he]
    exact not_append_lt _ _
  · rw [decide_eq_true_eq] at he' ⊢
    rw [← List.take_append_drop (path.length + 1) e'.1, he'] at hlt
    rw [← hlen]
    exact take_eq_of_between hlow (lt_asymm hlt)

theorem isSubKey_iff {path p : Bytes} :
    IsSubKey path p ↔
      p.take (path.length + 1) = path ++ [backslash] ∧ backslash ∉ p.drop (path.length + 1) := by
  have hlen : (path ++ [backslash]).length = path.length + 1 := List.length_append
  constructor
  · rintro ⟨name, rfl, hname⟩
    have hsplit : path ++ backslash :: name = (path ++ [backslash]) ++ name := by simp
    rw [hsplit, ← hlen, List.take_left, List.drop_left]
    exact ⟨rfl, hname⟩
  · rintro ⟨htake, hdrop⟩
    refine ⟨p.drop (path.length + 1), ?_, hdrop⟩
    have h := List.take_append_drop (path.length + 1) p
    rw [htake] at h
    rw [← List.singleton_append, ← List.append_assoc, h]

theorem mem_subKeyEntries {keys : Keys} {path p : Bytes} {key : RegistryKey} :
    (p, key) ∈ subKeyEntries keys path ↔ keys.find? p = some key ∧ IsSubKey path p := by
  rw [subKeyEntries_eq, List.mem_filter, List.mem_filter, SortedMap.mem_entries_iff, isSubKey_iff,
    decide_eq_true_eq, decide_eq_true_eq, and_assoc]

theorem nodup_subKeyEntries (keys : Keys) (path : Bytes) :
    ((subKeyEntries keys path).map Prod.fst).Nodup := by
  rw [subKeyEntries_eq]
  exact keys.nodup_keys.sublist (((List.filter_sublist).trans List.filter_sublist).map Prod.fst)

/-! ### Written names -/

/-- A key that is not a predefined one is displayed as it was written. -/
def Displayed (keys : Keys) : Prop :=
  ∀ p key, keys.find? p = some key → p ∉ roots → key.displayName = writtenName key

theorem Displayed.insert {keys : Keys} (h : Displayed keys) {p : Bytes} {key : RegistryKey}
    (hkey : p ∉ roots → key.displayName = writtenName key) : Displayed (keys.insert p key) := by
  intro p' key' hfind hroot
  rw [SortedMap.find?_insert] at hfind
  split_ifs at hfind with hp
  · cases hfind
    exact hkey (hp ▸ hroot)
  · exact h p' key' hfind hroot

theorem Displayed.ensureOne {keys : Keys} (h : Displayed keys) (part partWritten : Bytes) :
    Displayed (ensureOne keys part partWritten) := by
  unfold Registry.ensureOne
  split_ifs
  · exact h.insert fun _ => rfl
  · exact h

theorem Displayed.ensureKey {keys : Keys} (h : Displayed keys) (path asWritten : Bytes) :
    Displayed (ensureKey keys path asWritten) := by
  unfold Registry.ensureKey
  suffices hall : ∀ (l : List (UInt8 × UInt8)) (keys : Keys) (part partWritten : Bytes),
      Displayed keys → Displayed (ensureKeyAux keys part partWritten l) from hall _ _ _ _ h
  intro l
  induction l with
  | nil => exact fun keys part partWritten h => h.ensureOne part partWritten
  | cons c l ih =>
    intro keys part partWritten h
    refine ih _ _ _ ?_
    split_ifs
    · exact h.ensureOne part partWritten
    · exact h

theorem Displayed.ensureRootKeys {keys : Keys} (h : Displayed keys) :
    Displayed (ensureRootKeys keys) := by
  unfold Registry.ensureRootKeys
  refine List.foldlRecOn roots _ h fun keys hkeys root hroot => ?_
  split_ifs
  · exact hkeys.insert fun hno => absurd hroot hno
  · exact hkeys

theorem Displayed.parseIniStream {keys : Keys} (h : Displayed keys) (file : Bytes) :
    Displayed (parseIniStream file keys) := by
  have hline : ∀ (st : Parsed) line, Displayed st.1 → Displayed (parseLine st line).1 := by
    intro st line hst
    rcases parseLine_cases st line with he | he | ⟨w, -, -, -, he⟩ | ⟨name, text, -, -, -, he⟩
    · rwa [he]
    · rwa [he]
    · rw [he]
      exact hst.ensureKey _ _
    · rw [he]
      refine hst.insert fun hroot => ?_
      cases hfind : st.1.find? st.2 with
      | none => rfl
      | some key => exact hst st.2 key hfind hroot
  obtain ⟨current, hdisplayed⟩ := parseIniStream_induction (motive := fun st => Displayed st.1)
    file h fun st line _ hst => hline st line hst
  exact hdisplayed

theorem displayed_start (start : Start) : Displayed start.store.keys := by
  have hempty : Displayed (.empty : Keys) := fun p key h => by cases h
  have hfile : ∀ file : Option Bytes, Displayed (loadRegistryFile {} file).keys := by
    intro file
    cases file with
    | none => exact hempty.ensureRootKeys
    | some bytes => exact hempty.ensureRootKeys.parseIniStream bytes
  cases start with
  | mounted st file => exact hfile file
  | loaded file => exact hfile file

/-- **Every call keeps the written names.** -/
theorem Displayed.exec {st : RegistryStore} (hok : StoreOk st) (h : Displayed st.keys)
    (call : Call) : Displayed (exec st call).2.keys := by
  have heffect := hok.effect call
  generalize (Registry.exec st call).2 = st' at *
  cases heffect with
  | nothing => exact h
  | closed hKey => exact h
  | opened hpath hkey => exact h
  | created hw => exact h.ensureKey _ _
  | @valueSet path name key hkey hz value => exact h.insert (h path key hkey)
  | @valueDeleted path key hkey n => exact h.insert (h path key hkey)
  | keyDeleted hcall hne hpath hsub =>
    exact fun p key hfind => h p key (SortedMap.find?_erase.1 hfind).1

theorem displayed_execAll (start : Start) (calls : List Call) :
    Displayed (execAll start.store calls).keys := by
  have h := LTS.Reachable.invariant (I := fun st => Inv st ∧ Displayed st.keys)
    ⟨calls, run_eq_execAll start.store calls⟩ ⟨start.inv.1, displayed_start start⟩
    fun st call st' hI hn => ?_
  · exact h.2
  · cases hn
    exact ⟨hI.1.exec call, hI.2.exec hI.1.ok call⟩

theorem lastComponent_append {path name : Bytes} (h : backslash ∉ name) :
    lastComponent (path ++ backslash :: name) = name := by
  have hname : ∀ c ∈ name.reverse, decide (c ≠ backslash) = true := by
    intro c hc
    rw [decide_eq_true_eq]
    rintro rfl
    exact h (List.mem_reverse.1 hc)
  rw [lastComponent, List.rtakeWhile, List.reverse_append, List.reverse_cons, List.append_assoc,
    List.takeWhile_append_of_pos hname]
  simp

/-- **The names are the written names of the sub-keys.** -/
theorem subKeyNames_eq {st : RegistryStore} (h : Inv st) (hd : Displayed st.keys) (path : Bytes) :
    subKeyNames st.keys path = (subKeyEntries st.keys path).map fun e => writtenName e.2 := by
  refine List.map_congr_left fun e he => ?_
  obtain ⟨hfind, name, hp, hname⟩ := mem_subKeyEntries.1 (show (e.1, e.2) ∈ _ from he)
  have hroot : e.1 ∉ roots := by
    have hroots : ∀ root ∈ roots, backslash ∉ root := by decide +kernel
    intro hmem
    exact hroots _ hmem (hp ▸ by simp)
  have hdisplay := hd e.1 e.2 hfind hroot
  split_ifs with hnil
  · -- A key without a name of its own would have the empty component.
    have hlower := (h.forest.named e.1 e.2 hfind).displayName
    rw [hnil, hp, lastComponent_append hname] at hlower
    rw [← hdisplay, hnil, hp, ← hlower]
    simp [lowerAscii]
  · exact hdisplay

/-! ### Sizes -/

theorem le_maxLength_iff {ss : List Bytes} {n : ℕ} :
    n ≤ maxLength ss ↔ n = 0 ∨ ∃ s ∈ ss, n ≤ s.length := by
  unfold maxLength
  induction ss using List.reverseRecOn with
  | nil => simp
  | append_singleton ss s ih =>
    rw [List.foldl_append, List.foldl_cons, List.foldl_nil]
    simp only [List.mem_append, List.mem_singleton, or_and_right, exists_or, exists_eq_left]
    split_ifs with hs
    · constructor
      · exact fun h => .inr (.inr h)
      · rintro (h | h | h)
        · omega
        · exact (ih.2 (.inr h)).trans hs.le
        · exact h
    · rw [ih, ← or_assoc]
      refine ⟨.inl, fun h => h.elim id fun h => ih.1 (h.trans (not_lt.1 hs))⟩

theorem length_nameUnits (wide : Wide) (form : Form) (name : Bytes) :
    (nameUnits wide form name).length = nameLength wide form name + 1 := by
  cases form with
  | A => simp [nameUnits, nameLength]
  | W => exact length_towstring wide 0 (cstr name)

variable {wide} {form : Form} {st : RegistryStore} {hKey : HKEY} {path : Bytes}

theorem RegEnumKeyEx_none (h : Inv st) (hd : Displayed st.keys)
    (hpath : st.openHandles.find? hKey = some path) {i : ℕ}
    (hi : (subKeyEntries st.keys path)[i]? = none) (lpName : List ℕ) (cchName : ℕ) :
    RegEnumKeyEx wide form st hKey i lpName cchName =
      ⟨.ERROR_NO_MORE_ITEMS, cchName, lpName⟩ := by
  simp only [RegEnumKeyEx, hpath, subKeyNames_eq h hd, List.getElem?_map, hi, Option.map_none]

/-- **What an enumeration returns for a sub-key.** -/
theorem RegEnumKeyEx_some (h : Inv st) (hd : Displayed st.keys)
    (hpath : st.openHandles.find? hKey = some path) {i : ℕ} {kid : Bytes × RegistryKey}
    (hi : (subKeyEntries st.keys path)[i]? = some kid) (lpName : List ℕ) (cchName : ℕ) :
    RegEnumKeyEx wide form st hKey i lpName cchName =
      if cchName ≤ nameLength wide form (writtenName kid.2) then
        ⟨.ERROR_MORE_DATA, nameLength wide form (writtenName kid.2) + 1, lpName⟩
      else
        ⟨.ERROR_SUCCESS, nameLength wide form (writtenName kid.2),
          nameUnits wide form (writtenName kid.2) ++
            lpName.drop (nameLength wide form (writtenName kid.2) + 1)⟩ := by
  simp only [RegEnumKeyEx, hpath, subKeyNames_eq h hd, List.getElem?_map, hi, Option.map_some,
    length_nameUnits]

/-- **A name has no more units than bytes.** -/
theorem nameLength_le (wide : Wide) (form : Form) (name : Bytes) :
    nameLength wide form name ≤ name.length := by
  cases form with
  | A => exact le_rfl
  | W =>
    exact (towstringLength_le wide (cstr name)).trans (List.takeWhile_sublist _).length_le

theorem nameLength_le_maxLength (wide : Wide) (form : Form) {ss : List Bytes} {name : Bytes}
    (h : name ∈ ss) : nameLength wide form name ≤ maxLength ss :=
  (nameLength_le wide form name).trans (le_maxLength_iff.2 (.inr ⟨name, h, le_rfl⟩))

theorem sizeIn_le_iff {key : RegistryKey} {n : Bytes} {value : RegistryValue}
    (hvalue : key.values.find? n = some value) :
    sizeIn wide form value ≤ maxLength (key.values.entries.map fun v => v.2.data) ↔
      (IsText value.type → ∃ n' value', key.values.find? n' = some value' ∧
        textBytes wide value.data form ≤ value'.data.length) := by
  have hmax : ∀ k, 0 < k → (k ≤ maxLength (key.values.entries.map fun v => v.2.data) ↔
      ∃ n' value', key.values.find? n' = some value' ∧ k ≤ value'.data.length) := by
    intro k hk
    rw [le_maxLength_iff]
    constructor
    · rintro (hzero | ⟨s, hs, hle⟩)
      · omega
      · obtain ⟨⟨n', value'⟩, hmem, rfl⟩ := List.mem_map.1 hs
        exact ⟨n', value', SortedMap.mem_entries_iff.1 hmem, hle⟩
    · rintro ⟨n', value', hfind, hle⟩
      exact .inr ⟨value'.data, List.mem_map.2 ⟨_, SortedMap.mem_entries_iff.2 hfind, rfl⟩, hle⟩
  have hpos : 0 < textBytes wide value.data form := by
    cases form with
    | A => exact Nat.succ_pos _
    | W => exact Nat.mul_pos (Nat.succ_pos _) wide.size_pos
  unfold sizeIn
  split_ifs with ht
  · rw [hmax _ hpos]
    exact ⟨fun h _ => h, fun h => h ht⟩
  · refine iff_of_true (le_maxLength_iff.2 (.inr ⟨value.data, ?_, le_rfl⟩)) fun h => absurd h ht
    exact List.mem_map.2 ⟨_, SortedMap.mem_entries_iff.2 hvalue, rfl⟩

/-! ### Enumerating -/

/-- The numbers that are reported for a key. -/
def infoOf (keys : Keys) (path : Bytes) (key : RegistryKey) : KeyInfo where
  cSubKeys := (subKeyNames keys path).length
  cbMaxSubKeyLen := maxLength (subKeyNames keys path)
  cValues := key.values.entries.length
  cbMaxValueNameLen := maxLength (key.valueNames.entries.map Prod.snd)
  cbMaxValueLen := maxLength (key.values.entries.map fun v => v.2.data)

theorem RegQueryInfoKey_eq {key : RegistryKey} (hpath : st.openHandles.find? hKey = some path)
    (hkey : st.keys.find? path = some key) :
    RegQueryInfoKey st hKey = .ok (infoOf st.keys path key) := by
  simp only [RegQueryInfoKey, hpath, hkey, Option.getD_some, infoOf]

theorem enumerates_of_textsFit (h : Inv st) (hd : Displayed st.keys) {key : RegistryKey}
    (hpath : st.openHandles.find? hKey = some path) (hkey : st.keys.find? path = some key)
    (ht : TextsFit wide form st.keys path) :
    Enumerates wide form st hKey path (infoOf st.keys path key) where
  names := by
    refine ⟨subKeyEntries st.keys path, nodup_subKeyEntries _ _, fun _ _ => mem_subKeyEntries,
      List.length_map _, fun i lpName hi => ?_, fun i kid hi => ⟨fun lpName => ?_, ?_⟩⟩
    · exact RegEnumKeyEx_none h hd hpath (List.getElem?_eq_none hi) _ _
    · have hmem : writtenName kid.2 ∈ subKeyNames st.keys path := by
        rw [subKeyNames_eq h hd]
        exact List.mem_map_of_mem (List.mem_of_getElem? hi)
      rw [RegEnumKeyEx_some h hd hpath hi, if_neg]
      exact not_le.2 (Nat.lt_succ_of_le (nameLength_le_maxLength wide form hmem))
    · intro lpName cchName hsmall
      refine ⟨nameLength wide form (writtenName kid.2) + 1, ?_, fun lpName => ?_⟩
      · rw [RegEnumKeyEx_some h hd hpath hi, if_pos hsmall]
      · rw [RegEnumKeyEx_some h hd hpath hi, if_neg (by omega)]
  valueNames key' hkey' n name hname := by
    obtain rfl := Option.some.inj (hkey.symm.trans hkey')
    exact nameLength_le_maxLength wide form
      (List.mem_map.2 ⟨_, SortedMap.mem_entries_iff.2 hname, rfl⟩)
  values key' hkey' name hform value hvalue := by
    obtain rfl := Option.some.inj (hkey.symm.trans hkey')
    have hfound : findValue st hKey (name.name wide) = .ok value := by
      simp only [findValue, hpath, hkey, Option.bind_some, hvalue]
    have hle := (sizeIn_le_iff hvalue).2 (ht key hkey name hform value hvalue)
    rw [← hform] at hle
    refine ⟨valueBytes wide name.form value, ?_, fun memory => ?_⟩
    · rwa [length_valueBytes]
    rw [queryValue_some hfound, if_neg, length_valueBytes]
    exact not_lt.2 ((Nat.mod_le _ _).trans hle)

/-- If the announced size suffices for the values, the texts fit. -/
theorem textsFit_of_enumerates {key : RegistryKey}
    (hpath : st.openHandles.find? hKey = some path) (hkey : st.keys.find? path = some key)
    (he : Enumerates wide form st hKey path (infoOf st.keys path key)) :
    TextsFit wide form st.keys path := by
  intro key' hkey' name hform value hvalue
  obtain rfl := Option.some.inj (hkey.symm.trans hkey')
  refine (sizeIn_le_iff hvalue).1 ?_
  have hfound : findValue st hKey (name.name wide) = .ok value := by
    simp only [findValue, hpath, hkey, Option.bind_some, hvalue]
  obtain ⟨bytes, hle, hreply⟩ := he.values key hkey name hform value hvalue
  have hmemory := hreply []
  rw [queryValue_some hfound] at hmemory
  split_ifs at hmemory with hsmall
  · cases congrArg QueryReply.code hmemory
  · simp only [List.drop_nil, List.append_nil, QueryReply.mk.injEq, Option.some.injEq,
      true_and] at hmemory
    rwa [← hmemory.2, length_valueBytes, hform] at hle

/-- **A key is enumerated exactly, and the announced sizes suffice**, if and only if the handle is
an opened one and the texts of the key fit. -/
theorem enumerates_iff (wide : Wide) (form : Form) (start : Start) (calls : List Call) (hKey : HKEY)
    {path : Bytes} (hpath : keyOf (execAll start.store calls) hKey = some path) :
    (∃ info, RegQueryInfoKey (execAll start.store calls) hKey = .ok info ∧
        Enumerates wide form (execAll start.store calls) hKey path info) ↔
      ((execAll start.store calls).openHandles.find? hKey).isSome ∧
        TextsFit wide form (execAll start.store calls).keys path := by
  have h := inv_execAll start calls
  have hd := displayed_execAll start calls
  generalize execAll start.store calls = st at *
  cases hopen : st.openHandles.find? hKey with
  | none =>
    refine iff_of_false ?_ fun h => Bool.false_ne_true h.1
    rintro ⟨info, hinfo, -⟩
    rw [RegQueryInfoKey, hopen] at hinfo
    cases hinfo
  | some p =>
    rw [keyOf, hopen] at hpath
    obtain rfl := Option.some.inj hpath
    obtain ⟨key, hkey⟩ := Option.isSome_iff_exists.1 (h.handles hKey p hopen)
    rw [RegQueryInfoKey_eq hopen hkey]
    constructor
    · rintro ⟨info, hinfo, he⟩
      cases hinfo
      exact ⟨rfl, textsFit_of_enumerates hopen hkey he⟩
    · exact fun hs => ⟨_, rfl, enumerates_of_textsFit h hd hopen hkey hs.2⟩

/-- A root with one key is enumerated through a handle of the root. -/
theorem enumerates_root :
    (∃ info, RegQueryInfoKey (execAll (Start.mounted {} none).store
          [.createKey HKEY_CURRENT_USER (ascii "k") true, .openKey HKEY_CURRENT_USER none])
          0x00010002 = .ok info ∧
        Enumerates .utf32 .W (execAll (Start.mounted {} none).store
          [.createKey HKEY_CURRENT_USER (ascii "k") true, .openKey HKEY_CURRENT_USER none])
          0x00010002 (ascii "hkey_current_user") info) ↔
      ((execAll (Start.mounted {} none).store
          [.createKey HKEY_CURRENT_USER (ascii "k") true,
            .openKey HKEY_CURRENT_USER none]).openHandles.find? 0x00010002).isSome ∧
        TextsFit .utf32 .W (execAll (Start.mounted {} none).store
          [.createKey HKEY_CURRENT_USER (ascii "k") true, .openKey HKEY_CURRENT_USER none]).keys
          (ascii "hkey_current_user") :=
  enumerates_iff .utf32 .W (.mounted {} none)
    [.createKey HKEY_CURRENT_USER (ascii "k") true, .openKey HKEY_CURRENT_USER none] 0x00010002
    (by decide +kernel)

/-- A predefined handle is refused, and the announced size of one text is too small for its
terminator. -/
theorem sizes_too_small :
    (¬ ∃ info, RegQueryInfoKey (Start.mounted {} none).store HKEY_CURRENT_USER = .ok info ∧
      Enumerates .utf32 .A (Start.mounted {} none).store HKEY_CURRENT_USER
        (ascii "hkey_current_user") info) ∧
    ¬ ∃ info, RegQueryInfoKey (execAll (Start.mounted {} none).store
          [.createKey HKEY_CURRENT_USER (ascii "k") true,
            .setValue 0x00010001 (some (ascii "v")) ⟨REG_SZ, ascii "text"⟩ true])
          0x00010001 = .ok info ∧
        Enumerates .utf32 .A (execAll (Start.mounted {} none).store
          [.createKey HKEY_CURRENT_USER (ascii "k") true,
            .setValue 0x00010001 (some (ascii "v")) ⟨REG_SZ, ascii "text"⟩ true])
          0x00010001 (ascii "hkey_current_user\\k") info := by
  constructor
  · rintro ⟨info, hinfo, -⟩
    cases hinfo
  · rintro ⟨info, hinfo, he⟩
    have hmax := congrArg (fun r => (Except.toOption r).map KeyInfo.cbMaxValueLen) hinfo
    have hmax : info.cbMaxValueLen = 4 := by
      refine (Option.some.inj hmax).symm.trans ?_
      decide +kernel
    obtain ⟨key, hkey⟩ := Option.isSome_iff_exists.1 (show ((execAll (Start.mounted {} none).store
      [.createKey HKEY_CURRENT_USER (ascii "k") true,
        .setValue 0x00010001 (some (ascii "v")) ⟨REG_SZ, ascii "text"⟩ true]).keys.find?
          (ascii "hkey_current_user\\k")).isSome by decide +kernel)
    have hvalue : key.values.find? (ascii "v") = some ⟨REG_SZ, ascii "text"⟩ := by
      have hbind := congrArg (fun k => k.bind fun key => key.values.find? (ascii "v")) hkey
      exact hbind.symm.trans (by decide +kernel)
    obtain ⟨bytes, -, hreply⟩ := he.values key hkey (.A (some (ascii "v"))) rfl _ hvalue
    have hcode : (queryValue .utf32 _ _ _ _ _).code = .ERROR_SUCCESS :=
      congrArg QueryReply.code (hreply [])
    rw [hmax] at hcode
    revert hcode
    decide +kernel

end Registry

end Swinx
