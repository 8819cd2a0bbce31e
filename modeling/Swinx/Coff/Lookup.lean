import Swinx.Coff.Bounds

/-!
# The lookup of COFF resources

The names that lead to a resource are keys of a map, an id by its number behind a `#`.  The lookup
makes its keys anew: `FindResourceW` turns them into upper case, which the parser does not, and
`LoadStringW` writes the number of a table of strings without the `#`.

* `complete_iff` — when this is so.
* `lookup_incomplete` — a name in lower case is not found, and a string is not loaded.
-/

namespace Swinx

namespace Coff

/-! ### The lookup -/

/-- `towupper`, which leaves what is in upper case as it is. -/
structure Locale where
  towupper : ℕ → ℕ
  towupper_towupper : ∀ c, towupper (towupper c) = towupper c

/-- `strtoup` -/
def Locale.strtoup (lc : Locale) (s : WString) : WString := s.map lc.towupper

/-- The names are equal without regard to case. -/
def Locale.SameName (lc : Locale) (s t : WString) : Prop := lc.strtoup s = lc.strtoup t

theorem Locale.sameName_strtoup (lc : Locale) (s : WString) : lc.SameName (lc.strtoup s) s := by
  simp [SameName, strtoup, Function.comp_def, lc.towupper_towupper]

/-- A pointer that names a resource: an id, or a string up to its `NUL`. -/
inductive ResId
  | id (n : ℕ)
  | str (s : WString)
  deriving DecidableEq, Repr

/-- The key for a name, before it is turned into upper case. -/
def ResId.text : ResId → WString
  | .id n => idName (n % 65536)
  | .str s => s.takeWhile (· ≠ 0)

/-- `FindResourceW` -/
def findResourceW (lc : Locale) (p : Parser) (lpName lpType : ResId) (wLanguage : ℕ) :
    Option ResourceInfo :=
  if p.isValid = false then none
  else
    let langMap := p.resourceMap (lc.strtoup lpType.text) (lc.strtoup lpName.text)
    match langMap.entries with
    | [] => none
    | (_, info) :: rest =>
      if rest = [] ∨ wLanguage = 0 then some info
      else
        match langMap.find? wLanguage with
        | some info' => some info'
        | none => some info

/-! ### The strings of a table -/

/-- The bytes of a resource. -/
def ResourceInfo.bytes (blob : List UInt8) (info : ResourceInfo) : List UInt8 :=
  (blob.drop info.dataPtr).take info.dataSize

/-- The string at a position of a table, where each one has its length in front. -/
def countedString (bs : List UInt8) : ℕ → Option (List UInt8)
  | 0 =>
    if bs.length < 2 ∨ (bs.drop 2).length < 2 * Bytes.read bs 0 2 then none
    else some ((bs.drop 2).take (2 * Bytes.read bs 0 2))
  | n + 1 =>
    if bs.length < 2 ∨ (bs.drop 2).length < 2 * Bytes.read bs 0 2 then none
    else countedString ((bs.drop 2).drop (2 * Bytes.read bs 0 2)) n

/-- A text with nothing but `NUL`s from the first one on. -/
def zeroed (text : WString) : WString := wcsncpy text text.length

/-- A string in a buffer for `cchBufferMax` characters. -/
def cut (cchBufferMax : ℕ) : Option WString → Loaded
  | none => notLoaded
  | some text =>
    (min text.length (cchBufferMax - 1), text.take (min text.length (cchBufferMax - 1)) ++ [0])

/-- What `LoadStringW` makes of a string. -/
def loaded (cchBufferMax : ℕ) : Option WString → Loaded
  | none => notLoaded
  | some text =>
    (min text.length (cchBufferMax - 1), wcsncpy text (min text.length (cchBufferMax - 1)) ++ [0])

/-- The string that `LoadStringW` reads at `offset`. -/
def textAt (env : Env) (blob : List UInt8) (info : ResourceInfo) (offset : ℕ) : Option WString :=
  if offset + 2 > info.dataSize then none
  else
    let len := Bytes.read blob (info.dataPtr + offset) 2
    let offset := (offset + 2) % 0x100000000
    if offset + 2 * len > info.dataSize then none
    else some (env.toText ((blob.drop (info.dataPtr + offset)).take (2 * len)))

/-- The string that `LoadStringW` reads at a position. -/
def tableText (env : Env) (blob : List UInt8) (info : ResourceInfo) (n offset : ℕ) :
    Option WString :=
  match skipStrings blob info n offset with
  | .ok (some offset) => textAt env blob info offset
  | _ => none

/-! ### Completeness -/

/-- `RT_STRING` -/
def RT_STRING : ℕ := 6

/-- The table with the string of an id: that of the first language. -/
def Parser.block (p : Parser) (name : WString) : Option ResourceInfo :=
  (p.resourceMap (idName RT_STRING) name).entries.head?.map Prod.snd

/-- **The lookup is complete.** -/
structure Complete (env : Env) (lc : Locale) (blob : List UInt8) (dirBase : ℕ) (p : Parser) :
    Prop where
  /-- A resource is found by its names, in any case, and by its language or none. -/
  finds : ∀ v ∈ visited blob dirBase, v.IsData blob dirBase →
    0 ∉ (v.info env blob dirBase).typeName → 0 ∉ (v.info env blob dirBase).nameName →
    ∀ lpName lpType wLanguage, lc.SameName lpType.text (v.info env blob dirBase).typeName →
      lc.SameName lpName.text (v.info env blob dirBase).nameName →
      wLanguage = 0 ∨ wLanguage = (v.info env blob dirBase).languageId →
      ∃ u ∈ visited blob dirBase, u.IsData blob dirBase ∧
        findResourceW lc p lpName lpType wLanguage = some (u.info env blob dirBase) ∧
        lc.SameName (u.info env blob dirBase).typeName lpType.text ∧
        lc.SameName (u.info env blob dirBase).nameName lpName.text ∧
        (wLanguage = 0 ∨ (u.info env blob dirBase).languageId = wLanguage)
  /-- A string is loaded by its id, as far as it fits the buffer, `NUL`s included. -/
  loads : ∀ uID < 0x100000000, ∀ cchBufferMax, 0 < cchBufferMax →
    ∀ info, p.block (idName (uID / 16 + 1)) = some info →
      ∀ bytes, countedString (info.bytes blob) (uID % 16) = some bytes →
        loadStringW env blob p uID cchBufferMax = .ok (cut cchBufferMax (some (env.toText bytes)))

/-- **A well-formed object**: three levels, and names and data in the blob. -/
structure WellFormed (env : Env) (blob : List UInt8) (dirBase : ℕ) : Prop where
  hasSection : findDataSection blob = .ok (some dirBase)
  fits : Fits env blob dirBase
  levels : ∀ v ∈ visited blob dirBase, v.IsData blob dirBase → v.path.length = 3

/-- **What the keys of the lookup need**: every resource has one with its names in upper case, and
the table that has the number as its name, without a `#`, has what `wcsncpy` makes every string of,
where no string counts as the empty one. -/
structure Keyed (env : Env) (lc : Locale) (blob : List UInt8) (dirBase : ℕ) (p : Parser) :
    Prop where
  upper : ∀ v ∈ visited blob dirBase, v.IsData blob dirBase →
    0 ∉ (v.info env blob dirBase).typeName → 0 ∉ (v.info env blob dirBase).nameName →
    ∃ u ∈ visited blob dirBase, u.IsData blob dirBase ∧
      (u.info env blob dirBase).typeName = lc.strtoup (v.info env blob dirBase).typeName ∧
      (u.info env blob dirBase).nameName = lc.strtoup (v.info env blob dirBase).nameName ∧
      ((v.info env blob dirBase).languageId = 0 ∨
        (u.info env blob dirBase).languageId = (v.info env blob dirBase).languageId)
  strings : ∀ uID < 0x100000000, ∀ info, p.block (idName (uID / 16 + 1)) = some info →
    ∀ bytes, countedString (info.bytes blob) (uID % 16) = some bytes →
      zeroed (((p.block (decimal (uID / 16 + 1))).bind fun info' =>
        tableText env blob info' (uID % 16) 0).getD []) = env.toText bytes

variable {env : Env} {lc : Locale} {blob : List UInt8} {dirBase : ℕ}

/-! ### The map -/

/-- What is in the map under some names was recorded under them. -/
theorem of_find?_parsed {type name : WString} {language : ℕ} {info : ResourceInfo}
    (h : ((parsed env blob dirBase).resourceMap type name).find? language = some info) :
    (∃ v ∈ visited blob dirBase, v.IsData blob dirBase ∧ v.info env blob dirBase = info) ∧
      info.typeName = type ∧ info.nameName = name ∧ info.languageId = language := by
  rw [find?_parsed] at h
  have hmem : info ∈ found env blob dirBase := by
    simpa [current] using List.mem_of_find?_eq_some h
  obtain ⟨v, hv, rfl⟩ := List.mem_map.1 hmem
  obtain ⟨hv, hdata⟩ := List.mem_filter.1 hv
  exact ⟨⟨v, hv, of_decide_eq_true hdata, rfl⟩, by simpa using List.find?_some h⟩

variable (env) in
/-- What was recorded under some names has an entry under them. -/
theorem exists_find?_parsed {v : Visit} (hv : v ∈ visited blob dirBase)
    (hdata : v.IsData blob dirBase) :
    ∃ info, ((parsed env blob dirBase).resourceMap (v.info env blob dirBase).typeName
      (v.info env blob dirBase).nameName).find? (v.info env blob dirBase).languageId =
        some info := by
  rw [find?_parsed, ← Option.isSome_iff_exists, current, List.find?_isSome]
  refine ⟨v.info env blob dirBase, ?_, by simp⟩
  rw [List.mem_reverse]
  exact List.mem_map.2 ⟨v, List.mem_filter.2 ⟨hv, decide_eq_true hdata⟩, rfl⟩

theorem findResourceW_eq_some {p : Parser} {lpName lpType : ResId} {wLanguage : ℕ}
    {info : ResourceInfo} (h : findResourceW lc p lpName lpType wLanguage = some info) :
    ∃ language, (p.resourceMap (lc.strtoup lpType.text) (lc.strtoup lpName.text)).find? language =
      some info := by
  unfold findResourceW at h
  split_ifs at h
  simp only at h
  cases hentries : (p.resourceMap (lc.strtoup lpType.text) (lc.strtoup lpName.text)).entries with
  | nil => simp [hentries] at h
  | cons e rest =>
    obtain ⟨l, first⟩ := e
    have hfirst : (p.resourceMap (lc.strtoup lpType.text) (lc.strtoup lpName.text)).find? l =
        some first := SortedMap.mem_entries_iff.1 (hentries ▸ List.mem_cons_self)
    simp only [hentries] at h
    split_ifs at h
    · exact ⟨l, h ▸ hfirst⟩
    · cases hfind : (p.resourceMap (lc.strtoup lpType.text) (lc.strtoup lpName.text)).find?
          wLanguage with
      | none =>
        simp only [hfind] at h
        exact ⟨l, h ▸ hfirst⟩
      | some other =>
        simp only [hfind] at h
        exact ⟨wLanguage, h ▸ hfind⟩

variable (lc) in
theorem findResourceW_of_find? {p : Parser} (hvalid : p.isValid = true) {lpName lpType : ResId}
    {language : ℕ} {info : ResourceInfo}
    (h : (p.resourceMap (lc.strtoup lpType.text) (lc.strtoup lpName.text)).find? language =
      some info) :
    (∃ first, findResourceW lc p lpName lpType 0 = some first) ∧
      (language ≠ 0 → findResourceW lc p lpName lpType language = some info) := by
  have hmem := SortedMap.mem_entries_iff.2 h
  unfold findResourceW
  rw [if_neg (by simp [hvalid])]
  simp only
  cases hentries : (p.resourceMap (lc.strtoup lpType.text) (lc.strtoup lpName.text)).entries with
  | nil =>
    rw [hentries] at hmem
    exact absurd hmem List.not_mem_nil
  | cons e rest =>
    obtain ⟨l, first⟩ := e
    refine ⟨⟨first, by simp⟩, fun hlang => ?_⟩
    by_cases hrest : rest = []
    · -- the only entry is that of the language
      rw [hentries, hrest] at hmem
      cases List.mem_singleton.1 hmem
      simp [hvalid, hrest]
    · simp [hvalid, hrest, hlang, h]

theorem copyString_eq {info : ResourceInfo} (h : InBlob blob info) (cchBufferMax offset : ℕ) :
    copyString env blob info cchBufferMax offset =
      .ok (loaded cchBufferMax (textAt env blob info offset)) := by
  unfold copyString textAt
  by_cases hend : offset + 2 > info.dataSize
  · rw [if_pos hend, if_pos hend]
    rfl
  · rw [if_neg hend, if_neg hend, read16_of_le (read_of_inBlob h (by omega) (by omega))]
    simp only [Except.bind]
    by_cases hlen : (offset + 2) % 0x100000000 + 2 * Bytes.read blob (info.dataPtr + offset) 2 >
        info.dataSize
    · rw [if_pos hlen, if_pos hlen]
      rfl
    · rw [if_neg hlen, if_neg hlen]
      by_cases hzero : 2 * Bytes.read blob (info.dataPtr + offset) 2 = 0
      · rw [readBytes_eq_ok.2 ⟨.inl hzero, rfl⟩]
        rfl
      · rw [readBytes_eq_ok.2 ⟨.inr (read_of_inBlob h (by omega) (by omega)), rfl⟩]
        rfl

/-- **`LoadStringW` loads the string of the table that it looks for.** -/
theorem loadStringW_eq {p : Parser} (hvalid : p.isValid = true)
    (h : ∀ type name language info,
      (p.resourceMap type name).find? language = some info → InBlob blob info)
    (uID : ℕ) {cchBufferMax : ℕ} (hcch : 0 < cchBufferMax) :
    loadStringW env blob p uID cchBufferMax = .ok (loaded cchBufferMax
      ((p.block (decimal (uID / 16 + 1))).bind fun info =>
        tableText env blob info (uID % 16) 0)) := by
  have htype : idName RT_STRING = [35, 54] := by decide
  unfold loadStringW
  rw [if_neg (by simp [hvalid]; omega)]
  simp only [Parser.block, htype]
  cases hentries : (p.resourceMap [35, 54] (decimal (uID / 16 + 1))).entries with
  | nil => rfl
  | cons e es =>
    obtain ⟨language, info⟩ := e
    have hinfo : InBlob blob info :=
      h _ _ language info (SortedMap.mem_entries_iff.1 (hentries ▸ List.mem_cons_self))
    simp only [List.head?_cons, Option.map_some, Option.bind_some]
    obtain ⟨offset?, hskip⟩ := skipStrings_total hinfo (uID % 16) 0
    unfold tableText
    rw [hskip]
    by_cases hptr : info.dataPtr ≥ blob.length
    · rw [if_pos hptr]
      -- a table that begins behind the end is empty
      have hsize : info.dataSize = 0 := by
        have hdata : info.dataSize = 0 ∨ info.dataPtr + info.dataSize ≤ blob.length := hinfo _ rfl
        omega
      cases offset? with
      | none => rfl
      | some offset =>
        simp only [textAt]
        rw [if_pos (by omega)]
        rfl
    · rw [if_neg hptr]
      cases offset? with
      | none => rfl
      | some offset => exact copyString_eq hinfo cchBufferMax offset

/-! ### When the lookup is complete -/

/-- A resource is found if there is one with its names in upper case. -/
theorem finds_of_upper
    (hupper : ∀ v ∈ visited blob dirBase, v.IsData blob dirBase →
      0 ∉ (v.info env blob dirBase).typeName → 0 ∉ (v.info env blob dirBase).nameName →
      ∃ u ∈ visited blob dirBase, u.IsData blob dirBase ∧
        (u.info env blob dirBase).typeName = lc.strtoup (v.info env blob dirBase).typeName ∧
        (u.info env blob dirBase).nameName = lc.strtoup (v.info env blob dirBase).nameName ∧
        ((v.info env blob dirBase).languageId = 0 ∨
          (u.info env blob dirBase).languageId = (v.info env blob dirBase).languageId))
    {v : Visit} (hv : v ∈ visited blob dirBase) (hdata : v.IsData blob dirBase)
    (ht0 : 0 ∉ (v.info env blob dirBase).typeName) (hn0 : 0 ∉ (v.info env blob dirBase).nameName)
    {lpName lpType : ResId} {wLanguage : ℕ}
    (hlpType : lc.SameName lpType.text (v.info env blob dirBase).typeName)
    (hlpName : lc.SameName lpName.text (v.info env blob dirBase).nameName)
    (hlang : wLanguage = 0 ∨ wLanguage = (v.info env blob dirBase).languageId) :
    ∃ u ∈ visited blob dirBase, u.IsData blob dirBase ∧
      findResourceW lc (parsed env blob dirBase) lpName lpType wLanguage =
        some (u.info env blob dirBase) ∧
      lc.SameName (u.info env blob dirBase).typeName lpType.text ∧
      lc.SameName (u.info env blob dirBase).nameName lpName.text ∧
      (wLanguage = 0 ∨ (u.info env blob dirBase).languageId = wLanguage) := by
  obtain ⟨u, hu, hudata, htype, hname, hulang⟩ := hupper v hv hdata ht0 hn0
  obtain ⟨info, hinfo⟩ := exists_find?_parsed env hu hudata
  rw [htype, hname, ← hlpType, ← hlpName] at hinfo
  obtain ⟨⟨first, hfirst⟩, hother⟩ := findResourceW_of_find? lc rfl hinfo
  by_cases h0 : wLanguage = 0
  · subst h0
    obtain ⟨language, hfind⟩ := findResourceW_eq_some hfirst
    obtain ⟨⟨w, hw, hwdata, rfl⟩, hwt, hwn, -⟩ := of_find?_parsed hfind
    refine ⟨w, hw, hwdata, hfirst, ?_, ?_, .inl rfl⟩
    · rw [hwt]
      exact lc.sameName_strtoup _
    · rw [hwn]
      exact lc.sameName_strtoup _
  · have hvl : wLanguage = (v.info env blob dirBase).languageId := hlang.resolve_left h0
    have hul : (u.info env blob dirBase).languageId = wLanguage := by
      rcases hulang with hzero | heq
      · exact absurd (hvl.trans hzero) h0
      · exact heq.trans hvl.symm
    rw [hul] at hinfo hother
    obtain ⟨⟨w, hw, hwdata, rfl⟩, hwt, hwn, hwl⟩ := of_find?_parsed hinfo
    refine ⟨w, hw, hwdata, hother h0, ?_, ?_, .inr hwl⟩
    · rw [hwt]
      exact lc.sameName_strtoup _
    · rw [hwn]
      exact lc.sameName_strtoup _

theorem length_wcsncpy (text : WString) (n : ℕ) : (wcsncpy text n).length = n := by
  simp only [wcsncpy, List.length_append, List.length_replicate, List.length_take]
  omega

theorem take_zeroed {text : WString} {n : ℕ} (h : n ≤ text.length) :
    (zeroed text).take n = wcsncpy text n := by
  have hle : (text.takeWhile (· ≠ 0)).length ≤ text.length :=
    (List.takeWhile_sublist _).length_le
  simp only [zeroed, wcsncpy, List.take_of_length_le hle, List.take_append, List.take_replicate,
    List.length_take]
  congr 2
  omega

theorem loaded_eq_cut (cchBufferMax : ℕ) (text : Option WString) :
    loaded cchBufferMax text = cut cchBufferMax (some (zeroed (text.getD []))) := by
  have hlen : ∀ s : WString, (zeroed s).length = s.length := fun s => length_wcsncpy s s.length
  cases text with
  | none => simp [loaded, cut, notLoaded, zeroed, wcsncpy]
  | some s => simp only [loaded, cut, Option.getD_some, hlen, take_zeroed (Nat.min_le_left _ _)]

theorem eq_of_cut {s t : WString} (h : ∀ cch, 0 < cch → cut cch (some s) = cut cch (some t)) :
    s = t := by
  -- a buffer with room for both
  have hcut := congrArg Prod.snd (h (s.length + t.length + 1) (by omega))
  simp only [cut, Nat.add_sub_cancel] at hcut
  rw [Nat.min_eq_left (by omega), Nat.min_eq_left (by omega), List.take_length,
    List.take_length] at hcut
  exact List.append_cancel_right hcut

/-- **The lookup is complete exactly if the keys fit**: every resource has one with its names in
upper case, and every string is in a table named by the bare number. -/
theorem complete_iff (h : WellFormed env blob dirBase) {p : Parser}
    (hp : parse env blob = .ok p) :
    Complete env lc blob dirBase p ↔ Keyed env lc blob dirBase p := by
  obtain ⟨-, rfl⟩ := (parse_eq_ok h.hasSection).1 hp
  have hmap : ∀ type name language info,
      ((parsed env blob dirBase).resourceMap type name).find? language = some info →
        InBlob blob info :=
    fun type name language info hinfo =>
      h.fits.data type name language info (find?_parsed ▸ hinfo)
  constructor
  · intro hc
    refine ⟨fun v hv hdata ht0 hn0 => ?_, fun uID hu info hinfo bytes hbytes => ?_⟩
    · -- the resource is looked up by its own names
      have htext : ∀ {s : WString}, 0 ∉ s → (ResId.str s).text = s := fun hs =>
        List.takeWhile_eq_self_iff.2 fun c hc => by
          simpa using fun h0 : c = 0 => hs (h0 ▸ hc)
      obtain ⟨u, hu, hudata, hfind, -, -, hlang⟩ := hc.finds v hv hdata ht0 hn0
        (.str (v.info env blob dirBase).nameName) (.str (v.info env blob dirBase).typeName)
        (v.info env blob dirBase).languageId (congrArg lc.strtoup (htext ht0))
        (congrArg lc.strtoup (htext hn0)) (.inr rfl)
      obtain ⟨language, hmem⟩ := findResourceW_eq_some hfind
      obtain ⟨-, hut, hun, -⟩ := of_find?_parsed hmem
      rw [htext ht0] at hut
      rw [htext hn0] at hun
      exact ⟨u, hu, hudata, hut, hun, hlang⟩
    · refine eq_of_cut fun cch hcch => ?_
      have hload := hc.loads uID hu cch hcch info hinfo bytes hbytes
      rw [loadStringW_eq rfl hmap uID hcch, loaded_eq_cut] at hload
      exact Except.ok.inj hload
  · intro hk
    refine ⟨fun v hv hdata ht0 hn0 lpName lpType wLanguage => finds_of_upper hk.upper hv hdata ht0
      hn0, fun uID hu cch hcch info hinfo bytes hbytes => ?_⟩
    rw [loadStringW_eq rfl hmap uID hcch, loaded_eq_cut, hk.strings uID hu info hinfo bytes hbytes]

/-! ### Objects with resources that are not found -/

/-- Letters without accents. -/
def asciiLocale : Locale where
  towupper c := if 97 ≤ c ∧ c ≤ 122 then c - 32 else c
  towupper_towupper c := by grind

/-- What is to be checked of an object that the parser accepts. -/
theorem wellFormed_of (hsection : findDataSection blob = .ok (some dirBase))
    (hparse : (parse env blob).isOk = true)
    (hdata : ∀ info ∈ found env blob dirBase, info.dataPtr + info.dataSize ≤ blob.length)
    (hlevels : ∀ v ∈ visited blob dirBase, v.IsData blob dirBase → v.path.length = 3) :
    WellFormed env blob dirBase := by
  refine ⟨hsection, ⟨?_, fun type name language info hinfo => ?_⟩, hlevels⟩
  · cases hp : parse env blob with
    | error e =>
      rw [hp] at hparse
      cases hparse
    | ok p => exact ((parse_eq_ok hsection).1 hp).1
  · have hmem : info ∈ found env blob dirBase := by
      simpa [current] using List.mem_of_find?_eq_some hinfo
    intro ptr hptr
    cases hptr
    exact .inr (hdata info hmem)

/-- A table of strings with the id 1, of which the first string is `Hi`. -/
def stringsBlob : List UInt8 :=
  objectOf (directoryOf ⟨6, 0x80000000 + 24⟩ ++ directoryOf ⟨1, 0x80000000 + 48⟩ ++
    directoryOf ⟨1033, 72⟩ ++ Bytes.ofWords 4 [88, 36, 0, 0] ++
    Bytes.ofWords 2 ([2, 72, 105] ++ List.replicate 15 0))

/-- A resource of the type 10 with the name `ab`. -/
def lowerBlob : List UInt8 :=
  objectOf (directoryOf ⟨10, 0x80000000 + 24⟩ ++
    directoryOf ⟨0x80000000 + 72, 0x80000000 + 48⟩ ++ directoryOf ⟨1033, 80⟩ ++
    Bytes.ofWords 2 [2, 97, 98, 0] ++ Bytes.ofWords 4 [96, 4, 0, 0] ++ Bytes.ofNat 4 7)

theorem stringsBlob_wellFormed : WellFormed plainEnv stringsBlob 60 :=
  wellFormed_of (by decide +kernel) (by decide +kernel) (by decide +kernel) (by decide +kernel)

theorem lowerBlob_wellFormed : WellFormed plainEnv lowerBlob 60 :=
  wellFormed_of (by decide +kernel) (by decide +kernel) (by decide +kernel) (by decide +kernel)

theorem parse_of_wellFormed (h : WellFormed env blob dirBase) :
    parse env blob = .ok (parsed env blob dirBase) :=
  (parse_eq_ok h.hasSection).2 ⟨h.fits.names, rfl⟩

theorem complete_iff_stringsBlob :
    Complete plainEnv asciiLocale stringsBlob 60 (parsed plainEnv stringsBlob 60) ↔
      Keyed plainEnv asciiLocale stringsBlob 60 (parsed plainEnv stringsBlob 60) :=
  complete_iff stringsBlob_wellFormed (parse_of_wellFormed stringsBlob_wellFormed)

/-- **A string is not loaded, and a name is not found.** -/
theorem lookup_incomplete :
    (WellFormed plainEnv stringsBlob 60 ∧
      ¬ Complete plainEnv asciiLocale stringsBlob 60 (parsed plainEnv stringsBlob 60)) ∧
    WellFormed plainEnv lowerBlob 60 ∧
      ¬ Complete plainEnv asciiLocale lowerBlob 60 (parsed plainEnv lowerBlob 60) := by
  refine ⟨⟨stringsBlob_wellFormed, fun h => ?_⟩, lowerBlob_wellFormed, fun h => ?_⟩
  · have htable : ((parsed plainEnv stringsBlob 60).block (idName 1)).bind
        (fun info => countedString (info.bytes stringsBlob) 0) = some [72, 0, 105, 0] := by
      decide +kernel
    obtain ⟨info, hinfo, hbytes⟩ := Option.bind_eq_some_iff.1 htable
    have hload := h.loads 0 (by decide) 260 (by decide) info hinfo _ hbytes
    exact absurd hload (by decide +kernel)
  · have hvisit : ∃ v ∈ visited lowerBlob 60, v.IsData lowerBlob 60 ∧
        (v.info plainEnv lowerBlob 60).typeName = idName 10 ∧
        (v.info plainEnv lowerBlob 60).nameName = [97, 98] := by
      decide +kernel
    obtain ⟨v, hv, hdata, htype, hname⟩ := hvisit
    obtain ⟨u, -, -, hfind, -⟩ := h.finds v hv hdata (by rw [htype]; decide)
      (by rw [hname]; decide) (.str [97, 98]) (.id 10) 0 (by rw [htype]; rfl) (by rw [hname]; rfl)
      (.inl rfl)
    have hnone : findResourceW asciiLocale (parsed plainEnv lowerBlob 60) (.str [97, 98]) (.id 10)
        0 = none := by
      decide +kernel
    rw [hnone] at hfind
    cases hfind

end Coff

end Swinx
