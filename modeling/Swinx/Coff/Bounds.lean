import Swinx.Coff.Basic
import Swinx.Data.Yields

/-!
# What the parser of resources reads

The parser checks that a directory, its entries and the data entries are in the blob before it
reads them.  It does not check the strings of the names, it takes a name in the third level for a
number, and it does not look whether the data that a data entry tells are in the blob.

The entries that the parser comes to (`visited`) depend on the blob alone, so the descent is one
loop over them.  The parser ends normally when every step of that loop does, and what it records
are the data entries among them.

* `parseResourceDirectory_eq` — the descent is a loop over the visited entries.
* `parse_eq_ok` — when the parser ends normally, and what it records.
* `loadStringW_of_inBlob` — the strings of a table in the blob are read in the blob.
* `safe_iff_fits` — the parser is safe exactly for the blobs that fit.
-/

namespace Swinx

namespace Coff

variable (env : Env) (blob : List UInt8) (dirBase : ℕ)

/-! ### Reads -/

section Reads

variable {blob}

theorem readBytes_eq_ok {off n : ℕ} {bs : List UInt8} :
    readBytes blob off n = .ok bs ↔
      (n = 0 ∨ off + n ≤ blob.length) ∧ (blob.drop off).take n = bs := by
  unfold readBytes
  by_cases h : n = 0 ∨ off + n ≤ blob.length
  · rw [if_pos h]
    exact ⟨fun hbs => ⟨h, Except.ok.inj hbs⟩, fun hbs => congrArg Except.ok hbs.2⟩
  · rw [if_neg h]
    exact ⟨fun hbs => (nomatch hbs), fun hbs => absurd hbs.1 h⟩

theorem read16_eq_ok {off v : ℕ} :
    read16 blob off = .ok v ↔ off + 2 ≤ blob.length ∧ Bytes.read blob off 2 = v := by
  simp only [read16, map_eq_ok, readBytes_eq_ok, Bytes.read]
  grind

theorem read32_eq_ok {off v : ℕ} :
    read32 blob off = .ok v ↔ off + 4 ≤ blob.length ∧ Bytes.read blob off 4 = v := by
  simp only [read32, map_eq_ok, readBytes_eq_ok, Bytes.read]
  grind

theorem read16_of_le {off : ℕ} (h : off + 2 ≤ blob.length) :
    read16 blob off = .ok (Bytes.read blob off 2) := read16_eq_ok.2 ⟨h, rfl⟩

theorem read32_of_le {off : ℕ} (h : off + 4 ≤ blob.length) :
    read32 blob off = .ok (Bytes.read blob off 4) := read32_eq_ok.2 ⟨h, rfl⟩

end Reads

/-! ### The header and the sections -/

section Header

/-- The header is checked in the blob, and with it the section table. -/
theorem isCoffObjectBlob_total : ∃ valid, isCoffObjectBlob blob = .ok valid ∧
    (valid = true → 2 + 2 ≤ blob.length ∧
      SIZEOF_FILE_HEADER + SIZEOF_SECTION_HEADER * Bytes.read blob 2 2 ≤ blob.length) := by
  unfold isCoffObjectBlob
  by_cases h : blob.length < SIZEOF_FILE_HEADER
  · rw [if_pos h]
    exact ⟨false, rfl, fun hf => (nomatch hf)⟩
  · have hlen : 20 ≤ blob.length := Nat.le_of_not_lt h
    rw [if_neg h, read16_of_le (by omega), read16_of_le (by omega)]
    simp only [Except.bind]
    split_ifs
    · exact ⟨false, rfl, fun hf => (nomatch hf)⟩
    · exact ⟨_, rfl, fun hd => ⟨by omega, of_decide_eq_true hd⟩⟩

variable {blob} in
theorem findSection_total {n off : ℕ} (h : off + SIZEOF_SECTION_HEADER * n ≤ blob.length) :
    ∃ section?, findSection blob n off = .ok section? := by
  induction n generalizing off with
  | zero => exact ⟨none, rfl⟩
  | succ n ih =>
    have hhere : off + 40 ≤ blob.length := by
      unfold SIZEOF_SECTION_HEADER at h
      omega
    have hrest : off + SIZEOF_SECTION_HEADER + SIZEOF_SECTION_HEADER * n ≤ blob.length := by
      unfold SIZEOF_SECTION_HEADER at h ⊢
      omega
    have hname : readBytes blob off 8 = .ok ((blob.drop off).take 8) :=
      readBytes_eq_ok.2 ⟨.inr (by omega), rfl⟩
    simp only [findSection, hname, Except.bind]
    split_ifs
    · rw [read32_of_le (by omega), read32_of_le (by omega)]
      simp only
      split_ifs
      · exact ⟨none, rfl⟩
      · exact ⟨_, rfl⟩
    · exact ih hrest

theorem findDataSection_total : ∃ section?, findDataSection blob = .ok section? := by
  obtain ⟨valid, hvalid, hlen⟩ := isCoffObjectBlob_total blob
  unfold findDataSection
  rw [hvalid]
  cases valid with
  | false => exact ⟨none, rfl⟩
  | true =>
    obtain ⟨hcount, htable⟩ := hlen rfl
    simp only [Except.bind, if_true, read16_of_le hcount]
    exact findSection_total htable

end Header

/-! ### Names and languages -/

/-- The string of a named entry is in the blob. -/
def NameFits (e : Entry) : Prop :=
  e.nameIsString = true →
    dirBase + e.nameOffset + 2 + 2 * Bytes.read blob (dirBase + e.nameOffset) 2 ≤ blob.length

/-- The name of an entry, whether or not it is in the blob. -/
def nameOf (e : Entry) : WString :=
  if e.nameIsString then
    env.toName ((blob.drop (dirBase + e.nameOffset + 2)).take
      (2 * Bytes.read blob (dirBase + e.nameOffset) 2))
  else idName e.id

variable {env blob dirBase} in
theorem entryName_eq_ok {e : Entry} {name : WString} :
    entryName env blob dirBase e = .ok name ↔
      NameFits blob dirBase e ∧ nameOf env blob dirBase e = name := by
  unfold entryName NameFits nameOf
  by_cases h : e.nameIsString
  · simp only [h, if_true, parseUnicodeString, bind_eq_ok, map_eq_ok, read16_eq_ok,
      readBytes_eq_ok, forall_const]
    constructor
    · rintro ⟨length, ⟨hlen, rfl⟩, _, ⟨hbytes, rfl⟩, rfl⟩
      exact ⟨by omega, rfl⟩
    · rintro ⟨hlen, rfl⟩
      exact ⟨_, ⟨by omega, rfl⟩, _, ⟨.inr hlen, rfl⟩, rfl⟩
  · simp [h]

/-- The digits that `std::stoul` reads. -/
def digitsOf (env : Env) (s : WString) : WString :=
  let s := numeral env s
  if s.head? = some 43 ∨ s.head? = some 45 then s.tail.takeWhile isDigit else s.takeWhile isDigit

/-- Behind its first character the name begins with a number that is an `unsigned long`. -/
def IsLanguage (env : Env) (name : WString) : Prop :=
  name ≠ [] ∧ digitsOf env name.tail ≠ [] ∧ decimalValue (digitsOf env name.tail) ≤ ULONG_MAX

theorem digitsToUlong_isOk {neg : Bool} {s : WString} :
    (∃ n, digitsToUlong neg s = .ok n) ↔
      s.takeWhile isDigit ≠ [] ∧ decimalValue (s.takeWhile isDigit) ≤ ULONG_MAX := by
  unfold digitsToUlong
  by_cases hnil : s.takeWhile isDigit = []
  · simp [hnil]
  · by_cases hmax : decimalValue (s.takeWhile isDigit) > ULONG_MAX
    · simp [hnil, hmax]
    · simp [hnil, hmax, Nat.le_of_not_lt hmax]

theorem stoul_isOk {s : WString} :
    (∃ n, stoul env s = .ok n) ↔
      digitsOf env s ≠ [] ∧ decimalValue (digitsOf env s) ≤ ULONG_MAX := by
  unfold stoul digitsOf
  by_cases hplus : (numeral env s).head? = some 43
  · simp only [hplus, if_true, true_or]
    exact digitsToUlong_isOk
  · by_cases hminus : (numeral env s).head? = some 45
    · simp only [hminus, Option.some.injEq, Nat.reduceEqDiff, if_false, if_true, or_true]
      exact digitsToUlong_isOk
    · simp only [hplus, hminus, if_false, or_false]
      exact digitsToUlong_isOk

variable {env} in
theorem languageOf_isOk {name : WString} :
    (∃ l, languageOf env name = .ok l) ↔ IsLanguage env name := by
  cases name with
  | nil => simp [languageOf, IsLanguage]
  | cons c s =>
    have hmap : (∃ l, languageOf env (c :: s) = .ok l) ↔ ∃ n, stoul env s = .ok n := by
      simp only [languageOf, map_eq_ok]
      exact ⟨fun ⟨_, n, hn, _⟩ => ⟨n, hn⟩, fun ⟨n, hn⟩ => ⟨_, n, hn, rfl⟩⟩
    rw [hmap, stoul_isOk]
    exact (and_iff_right (List.cons_ne_nil c s)).symm

/-! ### The entries that are visited -/

/-- The entries of a directory. -/
def entriesAt (dirAddr : ℕ) : List Entry :=
  let totalEntries := Bytes.read blob (dirAddr + 12) 2 + Bytes.read blob (dirAddr + 14) 2
  if dirAddr + SIZEOF_DIRECTORY + SIZEOF_DIRECTORY_ENTRY * totalEntries > blob.length then []
  else
    (List.range totalEntries).map fun i =>
      ⟨Bytes.read blob (dirAddr + SIZEOF_DIRECTORY + SIZEOF_DIRECTORY_ENTRY * i) 4,
        Bytes.read blob (dirAddr + SIZEOF_DIRECTORY + SIZEOF_DIRECTORY_ENTRY * i + 4) 4⟩

/-- An entry with the entries that lead to it. -/
structure Visit where
  above : List Entry
  entry : Entry
  deriving DecidableEq, Repr

/-- The entries of a directory and those below them, in the order of the parser. -/
def visitedFrom : ℕ → ℕ → List Entry → List Visit
  | 0, _, _ => []
  | levels + 1, dirOffset, above =>
    (entriesAt blob (dirBase + dirOffset)).flatMap fun e =>
      ⟨above, e⟩ ::
        if e.dataIsDirectory then visitedFrom levels e.offsetToDirectory (above ++ [e]) else []

/-- **The entries that the parser comes to.** -/
def visited : List Visit := visitedFrom blob dirBase (MAX_RESOURCE_DEPTH + 1) 0 []

namespace Visit

/-- The names that lead to the entry, and its own. -/
def path (v : Visit) : List Entry := v.above ++ [v.entry]

/-- The entry leads to a data entry in the blob. -/
def IsData (v : Visit) : Prop :=
  v.entry.dataIsDirectory = false ∧
    dirBase + v.entry.offsetToData + SIZEOF_DATA_ENTRY ≤ blob.length

instance decidableIsData (v : Visit) : Decidable (v.IsData blob dirBase) := by
  unfold IsData
  infer_instance

/-- The name of the third level, if the entry has one. -/
def languageName (v : Visit) : Option WString := v.path[2]?.map (nameOf env blob dirBase)

/-- The resource of a data entry. -/
def info (v : Visit) : ResourceInfo where
  typeName := (v.path.map (nameOf env blob dirBase)).getD 0 []
  nameName := (v.path.map (nameOf env blob dirBase)).getD 1 []
  languageId :=
    match v.languageName env blob dirBase with
    | some name => (languageOf env name).toOption.getD 0
    | none => 0
  dataOffset := Bytes.read blob (dirBase + v.entry.offsetToData) 4
  dataSize := Bytes.read blob (dirBase + v.entry.offsetToData + 4) 4
  codePage := Bytes.read blob (dirBase + v.entry.offsetToData + 8) 4
  dataPtr := dirBase + Bytes.read blob (dirBase + v.entry.offsetToData) 4

/-- The name of the entry is in the blob, and if the entry is one of data, then the name of the
third level is a language. -/
def Fits (v : Visit) : Prop :=
  NameFits blob dirBase v.entry ∧
    (v.IsData blob dirBase → ∀ name ∈ v.languageName env blob dirBase, IsLanguage env name)

/-- The parser after the entry. -/
def after (p : Parser) (v : Visit) : Parser :=
  if v.IsData blob dirBase then p.record (v.info env blob dirBase) else p

/-- What the parser does at the entry itself. -/
def step (p : Parser) (v : Visit) : Except Fault Parser :=
  parseEntry env blob dirBase (v.above.map (nameOf env blob dirBase)) (fun _ _ p => .ok p) p v.entry

end Visit

theorem readDirectory_eq (dirAddr : ℕ) :
    readDirectory blob dirAddr = .ok (entriesAt blob dirAddr) := by
  unfold readDirectory entriesAt
  by_cases hheader : dirAddr + SIZEOF_DIRECTORY > blob.length
  · simp only [hheader, if_true, ite_self]
    rw [if_pos (by omega)]
  · have hlen : dirAddr + 16 ≤ blob.length := Nat.le_of_not_lt hheader
    rw [if_neg (by omega), if_neg hheader, read16_of_le (by omega), read16_of_le (by omega)]
    simp only [Except.bind]
    split_ifs with hentries
    · rfl
    · refine mapM_of_forall_ok fun i hi => ?_
      have hi' := List.mem_range.1 hi
      have hfit : dirAddr + SIZEOF_DIRECTORY + SIZEOF_DIRECTORY_ENTRY * i + 8 ≤ blob.length := by
        unfold SIZEOF_DIRECTORY_ENTRY at hentries ⊢
        omega
      rw [read32_of_le (by omega), read32_of_le (by omega)]
      rfl

/-! ### One entry -/

section Steps

variable {env blob dirBase}

theorem readResource_eq_ok {v : Visit} (hv : v.IsData blob dirBase) {info : ResourceInfo} :
    readResource env blob dirBase (dirBase + v.entry.offsetToData)
        (v.path.map (nameOf env blob dirBase)) = .ok info ↔
      (∀ name ∈ v.languageName env blob dirBase, IsLanguage env name) ∧
        v.info env blob dirBase = info := by
  have hlen : dirBase + v.entry.offsetToData + 16 ≤ blob.length := hv.2
  have hname : (v.path.map (nameOf env blob dirBase))[2]? = v.languageName env blob dirBase :=
    List.getElem?_map
  unfold readResource Visit.info
  rw [hname, read32_of_le (by omega), read32_of_le (by omega), read32_of_le (by omega)]
  cases v.languageName env blob dirBase with
  | none =>
    simp only [Except.bind, Except.map, Except.ok.injEq, Option.not_mem_none, false_imp_iff,
      implies_true, true_and]
  | some name =>
    simp only [Option.mem_some_iff, forall_eq', ← languageOf_isOk]
    cases languageOf env name with
    | error fault => simp [Except.bind]
    | ok l => simp [Except.bind, Except.map, Except.toOption]

/-- **What the parser does at an entry.** -/
theorem step_eq_ok {p p' : Parser} {v : Visit} :
    v.step env blob dirBase p = .ok p' ↔
      v.Fits env blob dirBase ∧ v.after env blob dirBase p = p' := by
  have hpath : v.above.map (nameOf env blob dirBase) ++ [nameOf env blob dirBase v.entry] =
      v.path.map (nameOf env blob dirBase) := by
    rw [Visit.path, List.map_append, List.map_singleton]
  unfold Visit.step parseEntry Visit.Fits Visit.after
  rw [bind_eq_ok]
  simp only [entryName_eq_ok, and_assoc, exists_and_left, exists_eq_left', hpath]
  refine and_congr_right fun _ => ?_
  by_cases hdir : v.entry.dataIsDirectory = true
  · have hdata : ¬ v.IsData blob dirBase := fun h => absurd h.1 (by simp [hdir])
    simp only [hdir, if_true, hdata, if_false, false_imp_iff, true_and, Except.ok.injEq]
  · by_cases hlen : dirBase + v.entry.offsetToData + SIZEOF_DATA_ENTRY > blob.length
    · have hdata : ¬ v.IsData blob dirBase := fun h => absurd h.2 (Nat.not_le_of_lt hlen)
      simp only [hdir, hlen, if_true, hdata, if_false, false_imp_iff, true_and, Except.ok.injEq,
        Bool.false_eq_true]
    · have hdata : v.IsData blob dirBase := ⟨by simpa using hdir, Nat.le_of_not_lt hlen⟩
      simp only [hdir, hlen, if_false, hdata, if_true, forall_const, Bool.false_eq_true, map_eq_ok,
        readResource_eq_ok hdata, and_assoc, exists_and_left, exists_eq_left']

/-! ### The descent -/

/-- **The descent is a loop over the visited entries.** -/
theorem parseResourceDirectory_eq (levels dirOffset : ℕ) (above : List Entry) (p : Parser) :
    parseResourceDirectory env blob dirBase levels dirOffset
        (above.map (nameOf env blob dirBase)) p =
      (visitedFrom blob dirBase levels dirOffset above).foldlM (Visit.step env blob dirBase) p := by
  induction levels generalizing dirOffset above p with
  | zero => rfl
  | succ levels ih =>
    rw [parseResourceDirectory, visitedFrom, readDirectory_eq, foldlM_flatMap]
    simp only [Except.bind]
    congr 1
    funext p e
    rw [List.foldlM_cons]
    by_cases hdir : e.dataIsDirectory = true
    · simp only [hdir, if_true, parseEntry, Visit.step]
      cases hname : entryName env blob dirBase e with
      | error fault => rfl
      | ok name =>
        have hpath : above.map (nameOf env blob dirBase) ++ [name] =
            (above ++ [e]).map (nameOf env blob dirBase) := by
          rw [List.map_append, List.map_singleton, (entryName_eq_ok.1 hname).2]
        simp only [Except.bind]
        rw [hpath]
        exact ih _ _ _
    · simp only [hdir, if_false, Bool.false_eq_true, List.foldlM_nil]
      have hstep : parseEntry env blob dirBase (above.map (nameOf env blob dirBase))
          (parseResourceDirectory env blob dirBase levels) p e =
            Visit.step env blob dirBase p ⟨above, e⟩ := by
        unfold Visit.step parseEntry
        simp only [hdir, Bool.false_eq_true, if_false]
      rw [hstep]
      exact (bind_pure _).symm

end Steps

/-- **The resources that are recorded**, in the order of the parser. -/
def found : List ResourceInfo :=
  ((visited blob dirBase).filter fun v => v.IsData blob dirBase).map
    (Visit.info env blob dirBase)

/-- The parser after a run over the directories at `dirBase` that ends normally. -/
def parsed : Parser :=
  { (found env blob dirBase).foldl Parser.record newParser with isValid := true }

variable {env blob dirBase}

theorem foldl_after (vs : List Visit) (p : Parser) :
    vs.foldl (Visit.after env blob dirBase) p =
      ((vs.filter fun v => v.IsData blob dirBase).map (Visit.info env blob dirBase)).foldl
        Parser.record p := by
  induction vs generalizing p with
  | nil => rfl
  | cons v vs ih =>
    rw [List.foldl_cons, ih, Visit.after]
    by_cases h : v.IsData blob dirBase
    · rw [if_pos h, List.filter_cons_of_pos (by simpa using h), List.map_cons, List.foldl_cons]
    · rw [if_neg h, List.filter_cons_of_neg (by simpa using h)]

/-- **When the parser ends normally, and what it records.** -/
theorem parse_eq_ok (h : findDataSection blob = .ok (some dirBase)) {p : Parser} :
    parse env blob = .ok p ↔
      (∀ v ∈ visited blob dirBase, v.Fits env blob dirBase) ∧ parsed env blob dirBase = p := by
  obtain ⟨valid, hvalid, hlen⟩ := isCoffObjectBlob_total blob
  cases valid with
  | false => simp [findDataSection, hvalid, Except.bind] at h
  | true =>
    have hlen' : ¬ blob.length < 16 := by
      have := (hlen rfl).2
      unfold SIZEOF_FILE_HEADER at this
      omega
    have hloop : parseResourceDirectory env blob dirBase (MAX_RESOURCE_DEPTH + 1) 0 [] newParser =
        (visited blob dirBase).foldlM (Visit.step env blob dirBase) newParser :=
      parseResourceDirectory_eq (MAX_RESOURCE_DEPTH + 1) 0 [] newParser
    have hstep : ∀ p v p', Visit.step env blob dirBase p v = .ok p' ↔
        v.Fits env blob dirBase ∧ v.after env blob dirBase p = p' := fun _ _ _ => step_eq_ok
    simp only [parse, hvalid, h, Except.bind, Bool.true_eq_false, if_false, hlen', map_eq_ok, hloop,
      foldlM_eq_ok hstep, and_assoc, foldl_after, exists_and_left, exists_eq_left']
    exact Iff.rfl

theorem parse_of_none (h : findDataSection blob = .ok none) : parse env blob = .ok newParser := by
  obtain ⟨valid, hvalid, _⟩ := isCoffObjectBlob_total blob
  cases valid with
  | false => simp [parse, hvalid, Except.bind]
  | true => simp [parse, hvalid, h, Except.bind]

/-! ### The map of the resources -/

/-- The last of the resources that has this type, name and language. -/
def current (infos : List ResourceInfo) (type name : WString) (language : ℕ) :
    Option ResourceInfo :=
  infos.reverse.find? fun info =>
    info.typeName = type ∧ info.nameName = name ∧ info.languageId = language

theorem find?_record {m : ResourceMap} {info : ResourceInfo} {type name : WString} {language : ℕ} :
    (m.record info type name).find? language =
      if info.typeName = type ∧ info.nameName = name ∧ info.languageId = language then some info
      else (m type name).find? language := by
  unfold ResourceMap.record
  by_cases ht : info.typeName = type
  · subst ht
    by_cases hn : info.nameName = name
    · subst hn
      simp only [Function.update_self, SortedMap.find?_insert, true_and, eq_comm]
    · simp only [Function.update_self, Function.update_of_ne (Ne.symm hn), hn, false_and, and_false,
        if_false]
  · simp only [Function.update_of_ne (Ne.symm ht), ht, false_and, if_false]

/-- **The map has the last of the resources of each key.** -/
theorem find?_foldl_record (infos : List ResourceInfo) (p : Parser) (type name : WString)
    (language : ℕ) :
    ((infos.foldl Parser.record p).resourceMap type name).find? language =
      (current infos type name language).or ((p.resourceMap type name).find? language) := by
  induction infos using List.reverseRecOn with
  | nil => rfl
  | append_singleton infos info ih =>
    rw [List.foldl_append, List.foldl_cons, List.foldl_nil, Parser.record, current,
      List.reverse_append, List.reverse_singleton, List.singleton_append, List.find?_cons]
    simp only [find?_record, ih]
    by_cases h : info.typeName = type ∧ info.nameName = name ∧ info.languageId = language
    · simp [h]
    · simp only [h, if_false, decide_false]
      rfl

theorem find?_parsed {type name : WString} {language : ℕ} :
    ((parsed env blob dirBase).resourceMap type name).find? language =
      current (found env blob dirBase) type name language := by
  refine (find?_foldl_record (found env blob dirBase) newParser type name language).trans ?_
  exact Option.or_none

/-- The bytes that `LockResource` and `SizeofResource` hand out are in the blob. -/
def InBlob (blob : List UInt8) (info : ResourceInfo) : Prop :=
  ∀ ptr ∈ lockResource (some info),
    sizeofResource (some info) = 0 ∨ ptr + sizeofResource (some info) ≤ blob.length

theorem read_of_inBlob {info : ResourceInfo} (h : InBlob blob info) {off n : ℕ} (hn : 0 < n)
    (hoff : off + n ≤ info.dataSize) : info.dataPtr + off + n ≤ blob.length := by
  have hdata : info.dataSize = 0 ∨ info.dataPtr + info.dataSize ≤ blob.length := h _ rfl
  omega

theorem skipStrings_total {info : ResourceInfo} (h : InBlob blob info) (n offset : ℕ) :
    ∃ offset?, skipStrings blob info n offset = .ok offset? := by
  induction n generalizing offset with
  | zero => exact ⟨_, rfl⟩
  | succ n ih =>
    unfold skipStrings
    by_cases hend : offset + 2 > info.dataSize
    · rw [if_pos hend]
      exact ⟨_, rfl⟩
    · rw [if_neg hend, read16_of_le (read_of_inBlob h (by omega) (by omega))]
      exact ih _

theorem copyString_total {info : ResourceInfo} (h : InBlob blob info) (cchBufferMax offset : ℕ)
    : ∃ r, copyString env blob info cchBufferMax offset = .ok r := by
  unfold copyString
  by_cases hend : offset + 2 > info.dataSize
  · rw [if_pos hend]
    exact ⟨_, rfl⟩
  · rw [if_neg hend, read16_of_le (read_of_inBlob h (by omega) (by omega))]
    simp only [Except.bind]
    split_ifs with hlen
    · exact ⟨_, rfl⟩
    · by_cases hzero : 2 * Bytes.read blob (info.dataPtr + offset) 2 = 0
      · rw [readBytes_eq_ok.2 ⟨.inl hzero, rfl⟩]
        exact ⟨_, rfl⟩
      · rw [readBytes_eq_ok.2 ⟨.inr (read_of_inBlob h (by omega) (by omega)), rfl⟩]
        exact ⟨_, rfl⟩

/-- **The strings of a table in the blob are read in the blob.** -/
theorem loadStringW_of_inBlob {p : Parser}
    (h : ∀ type name language info,
      (p.resourceMap type name).find? language = some info → InBlob blob info)
    (uID cchBufferMax : ℕ) : ∃ r, loadStringW env blob p uID cchBufferMax = .ok r := by
  unfold loadStringW
  split_ifs
  · exact ⟨_, rfl⟩
  · simp only
    cases hentries : (p.resourceMap [35, 54] (decimal (uID / 16 + 1))).entries with
    | nil => exact ⟨_, rfl⟩
    | cons e es =>
      obtain ⟨language, info⟩ := e
      have hinfo : InBlob blob info :=
        h _ _ language info (SortedMap.mem_entries_iff.1 (hentries ▸ List.mem_cons_self))
      simp only
      split_ifs
      · exact ⟨_, rfl⟩
      · obtain ⟨offset?, hskip⟩ := skipStrings_total hinfo (uID % 16) 0
        rw [hskip]
        cases offset? with
        | none => exact ⟨_, rfl⟩
        | some offset => exact copyString_total hinfo cchBufferMax offset

/-! ### Safety -/

/-- What is promised of a parser after `Parse`. -/
structure SafeParser (env : Env) (blob : List UInt8) (p : Parser) : Prop where
  resources : ∀ type name language info,
    (p.resourceMap type name).find? language = some info → InBlob blob info
  strings : ∀ uID cchBufferMax, ∃ r, loadStringW env blob p uID cchBufferMax = .ok r

/-- **The parser stays in the blob**: it ends normally, and so do the calls after it. -/
def Safe (env : Env) (blob : List UInt8) : Prop :=
  ∃ p, parse env blob = .ok p ∧ SafeParser env blob p

/-- **The blob is what the parser takes it for.** -/
structure Fits (env : Env) (blob : List UInt8) (dirBase : ℕ) : Prop where
  /-- The names of the visited entries are in the blob, and those of languages are numbers. -/
  names : ∀ v ∈ visited blob dirBase, v.Fits env blob dirBase
  /-- The data of the last resource of each key are in the blob. -/
  data : ∀ type name language info,
    current (found env blob dirBase) type name language = some info → InBlob blob info

/-- **The parser is safe exactly for the blobs that fit.** -/
theorem safe_iff_fits (env : Env) (blob : List UInt8) :
    Safe env blob ↔
      ∀ dirBase, findDataSection blob = .ok (some dirBase) → Fits env blob dirBase := by
  constructor
  · rintro ⟨p, hp, hsafe⟩ dirBase hbase
    obtain ⟨hnames, rfl⟩ := (parse_eq_ok hbase).1 hp
    refine ⟨hnames, fun type name language info hinfo => ?_⟩
    exact hsafe.resources type name language info (find?_parsed.trans hinfo)
  · intro h
    obtain ⟨section?, hsection⟩ := findDataSection_total blob
    cases section? with
    | none =>
      refine ⟨newParser, parse_of_none hsection, fun type name language info hinfo => ?_, ?_⟩
      · exact absurd hinfo (by simp [newParser])
      · exact loadStringW_of_inBlob fun type name language info hinfo => by
          simp [newParser] at hinfo
    | some dirBase =>
      obtain ⟨hnames, hdata⟩ := h dirBase hsection
      have hresources : ∀ type name language info,
          ((parsed env blob dirBase).resourceMap type name).find? language = some info →
            InBlob blob info :=
        fun type name language info hinfo => hdata type name language info (find?_parsed ▸ hinfo)
      exact ⟨_, (parse_eq_ok hsection).2 ⟨hnames, rfl⟩, hresources,
        loadStringW_of_inBlob hresources⟩

theorem Safe.isOk (h : Safe env blob) (uID cchBufferMax : ℕ) :
    ((parse env blob).bind fun p => loadStringW env blob p uID cchBufferMax).isOk = true := by
  obtain ⟨p, hp, hsafe⟩ := h
  obtain ⟨r, hr⟩ := hsafe.strings uID cchBufferMax
  rw [hp, Except.bind, hr]
  rfl

/-! ### Blobs that do not fit -/

/-- Strings without surrogates. -/
def plainEnv : Env where
  toName := Bytes.words 2
  toText := Bytes.words 2
  iswspace := fun c => decide (c = 32 ∨ 9 ≤ c ∧ c ≤ 13)

/-- An object with one section, which begins at 60. -/
def objectOf (raw : List UInt8) : List UInt8 :=
  Bytes.ofNat 2 0x8664 ++ Bytes.ofNat 2 1 ++ List.replicate 16 0 ++ RSRC ++ List.replicate 11 0 ++
    Bytes.ofNat 4 raw.length ++ Bytes.ofNat 4 60 ++ List.replicate 16 0 ++ raw

/-- A directory with one entry. -/
def directoryOf (e : Entry) : List UInt8 :=
  List.replicate 12 0 ++ Bytes.ofNat 2 0 ++ Bytes.ofNat 2 1 ++ Bytes.ofNat 4 e.name ++
    Bytes.ofNat 4 e.offset

/-- The string of the name of a type is behind the end. -/
def nameBlob : List UInt8 := objectOf (directoryOf ⟨0x80000000 + 1000, 24⟩)

/-- The language has the name `x`. -/
def languageBlob : List UInt8 :=
  objectOf (directoryOf ⟨10, 0x80000000 + 24⟩ ++ directoryOf ⟨1, 0x80000000 + 48⟩ ++
    directoryOf ⟨0x80000000 + 72, 76⟩ ++ Bytes.ofWords 2 [1, 120] ++ List.replicate 16 0)

/-- The table of strings with the name `1` has 100 bytes, of which two are in the blob. -/
def dataBlob : List UInt8 :=
  objectOf (directoryOf ⟨6, 0x80000000 + 24⟩ ++ directoryOf ⟨0x80000000 + 48, 52⟩ ++
    Bytes.ofWords 2 [1, 49] ++ Bytes.ofWords 4 [68, 100, 0, 0] ++ Bytes.ofNat 2 16)

/-- A name behind the end is read, a language that is no number ends the program, and a string of
a table that ends behind the end is read. -/
theorem parser_leaves_blob : ¬ Safe plainEnv nameBlob ∧ ¬ Safe plainEnv languageBlob ∧
    (parse plainEnv dataBlob).isOk = true ∧ ¬ Safe plainEnv dataBlob :=
  ⟨fun h => absurd (h.isOk 0 260) (by decide +kernel),
    fun h => absurd (h.isOk 0 260) (by decide +kernel), by decide +kernel,
    fun h => absurd (h.isOk 0 260) (by decide +kernel)⟩

end Coff

end Swinx
