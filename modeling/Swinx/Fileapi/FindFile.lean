import Swinx.Data.CString

/-!
# Searching a directory

`FindFirstFileEx` opens the directory that a pattern names and looks for its first entry that
matches; `FindNextFile` goes on from there.  An entry that matches and cannot be examined is passed
over.

The files do not change during a search, and memory does not run out.  What is open is a number of
directories.  A name that does not fit its array has no result: `undefined`.

* `reports_calls_iff` — what the calls of `FindNextFile` report.
* `exact_iff` — a search is exact if and only if it is `Clean`.
* `spurious` — an entry that cannot be examined is reported if it is the last one.
-/

namespace Swinx

namespace FindFile

def MAX_PATH : ℕ := 1000

def FILE_ATTRIBUTE_HIDDEN : UInt32 := 0x02

def FILE_ATTRIBUTE_DIRECTORY : UInt32 := 0x10

def FILE_ATTRIBUTE_ARCHIVE : UInt32 := 0x20

def FILE_ATTRIBUTE_NORMAL : UInt32 := 0x80

def FindExInfoStandard : ℕ := 0

def FindExInfoBasic : ℕ := 1

def FindExSearchNameMatch : ℕ := 0

def FindExSearchLimitToDirectories : ℕ := 1

structure Timespec where
  tv_sec : ℤ
  tv_nsec : ℤ

/-- `TimeSpec2FileTime` -/
def timeSpec2FileTime (ts : Timespec) : UInt64 :=
  if ts.tv_sec < 0 then 0
  else ts.tv_sec.toNat.toUInt64 * 10000000 + 11644473600 * 10000000 +
    (ts.tv_nsec.toNat / 100).toUInt64

/-- `st_mode` -/
inductive FileType
  | regular
  | directory
  | other
deriving DecidableEq

/-- `struct stat` -/
structure Stat where
  st_mode : FileType
  st_size : UInt64
  st_ctim : Timespec
  st_mtim : Timespec
  st_atim : Timespec

/-- `WIN32_FIND_DATAA` -/
structure FindData where
  dwFileAttributes : UInt32
  ftCreationTime : UInt64
  ftLastAccessTime : UInt64
  ftLastWriteTime : UInt64
  nFileSizeHigh : UInt32
  nFileSizeLow : UInt32
  cFileName : Bytes
  cAlternateFileName : Bytes

/-- What the system answers. -/
structure Env where
  /-- The names in the order of `readdir`. -/
  opendir : Bytes → Option (List Bytes)
  /-- The empty path names no directory. -/
  opendir_nil : opendir [] = none
  stat : Bytes → Option Stat
  /-- `fnmatch(pattern, name, 0) == 0` -/
  fnmatch : Bytes → Bytes → Bool

/-- `FIND_FIRST_INFO` -/
structure FindInfo where
  path : Bytes
  name : Bytes
  level : ℕ
  wildcard : Bool
  /-- `MASK_FILTER_ALL` -/
  filterAll : Bool

/-- A letter in lower case. -/
def tolower (c : UInt8) : UInt8 := if 65 ≤ c ∧ c ≤ 90 then c + 32 else c

/-- `stricmp(a, b) == 0` -/
def stricmp (a b : Bytes) : Bool := a.map tolower = b.map tolower

/-- `strpbrk(name, "*?") != NULL` -/
def hasWildcard (name : Bytes) : Bool := name.any fun c => c = 42 || c = 63

/-- `"*.*"` -/
def allFiles : Bytes := [42, 46, 42]

/-- What `FindNextFileA` writes over the old data. -/
def fill (d_name : Bytes) (st : Stat) (data : FindData) : FindData where
  dwFileAttributes :=
    (match st.st_mode with
      | .regular => FILE_ATTRIBUTE_ARCHIVE ||| FILE_ATTRIBUTE_NORMAL
      | .directory => FILE_ATTRIBUTE_DIRECTORY
      | .other => data.dwFileAttributes) |||
    (if d_name.head? = some 46 then FILE_ATTRIBUTE_HIDDEN else 0)
  ftCreationTime := timeSpec2FileTime st.st_ctim
  ftLastAccessTime := timeSpec2FileTime st.st_atim
  ftLastWriteTime := timeSpec2FileTime st.st_mtim
  nFileSizeHigh := (st.st_size >>> 32).toUInt32
  nFileSizeLow := st.st_size.toUInt32
  cFileName := d_name
  cAlternateFileName := []

section Code

variable (env : Env)

/-- `bMatch` after the tests for an entry -/
def matchOf (info : FindInfo) (bMatch : Bool) (d_name : Bytes) : Bool :=
  if info.filterAll then true
  else if info.wildcard then env.fnmatch info.name d_name
  else if info.level = FindExInfoStandard then stricmp info.name d_name
  else bMatch

/-- `stat` of an entry -/
def examine (path d_name : Bytes) : Option Stat := env.stat (path ++ 47 :: d_name)

/-- The loop of `FindNextFileA`: what it returns, the entries left, and the data -/
def findNextLoop (info : FindInfo) : List Bytes → Bool → FindData → Bool × List Bytes × FindData
  | [], bMatch, data => (bMatch, [], data)
  | d_name :: rest, bMatch, data =>
    let bMatch := matchOf env info bMatch d_name
    if bMatch = false then findNextLoop info rest bMatch data
    else
      match examine env info.path d_name with
      | some st => (bMatch, rest, fill d_name st data)
      | none => findNextLoop info rest bMatch data

/-- `FindNextFileA` -/
def findNextFileA (info : FindInfo) (dir : List Bytes) (data : FindData) :
    Bool × List Bytes × FindData :=
  findNextLoop env info dir false data

/-- What `FindFirstFileExA` returns, and the directories that are open then. -/
inductive First
  /-- A name was written past its array. -/
  | undefined
  /-- `INVALID_HANDLE_VALUE` -/
  | invalid (opened : ℕ)
  | handle (info : FindInfo) (dir : List Bytes) (data : Option FindData) (opened : ℕ)

/-- The text before the last slash, and the one behind it. -/
def lastSlash (filename : Bytes) : Option (Bytes × Bytes) :=
  (breakOn 47 filename.reverse).map fun p => (p.2.reverse, p.1.reverse)

/-- The first search, which closes the directory if nothing is found -/
def firstMatch (info : FindInfo) (dir : List Bytes) (data : Option FindData) (opened : ℕ) : First :=
  match data with
  | none => .handle info dir none opened
  | some d =>
    match findNextFileA env info dir d with
    | (true, rest, d') => .handle info rest (some d') opened
    | (false, _, _) => .invalid (opened - 1)

/-- `FindFirstFileExA`; no data is `NULL` -/
def findFirstFileExA (opened : ℕ) (filename : Bytes) (level : ℕ) (data : Option FindData)
    (search_op : ℕ) : First :=
  match lastSlash filename with
  | none => .invalid opened
  | some (path, name) =>
    if MAX_PATH + 2 ≤ name.length + 1 then .invalid opened
    else
      match env.opendir path with
      | none => .invalid opened
      | some dir =>
        if search_op ≠ FindExSearchNameMatch ∧ search_op ≠ FindExSearchLimitToDirectories then
          .invalid (opened + 1)
        else if level ≠ FindExInfoStandard ∧ level ≠ FindExInfoBasic then .invalid (opened + 1)
        else if MAX_PATH ≤ path.length ∨ MAX_PATH ≤ name.length then .undefined
        else
          firstMatch env
            ⟨path, name, level, hasWildcard name, hasWildcard name && (name == allFiles)⟩ dir data
            (opened + 1)

/-- What `n` calls of `FindNextFileA` return, each with its own old data. -/
def calls (info : FindInfo) : ℕ → List Bytes → (ℕ → FindData) → List (Bool × FindData)
  | 0, _, _ => []
  | n + 1, dir, old =>
    let r := findNextFileA env info dir (old 0)
    (r.1, r.2.2) :: calls info n r.2.1 fun i => old (i + 1)

end Code

/-! ### What a search owes its caller -/

section Search

variable (env : Env)

/-- An entry matches the pattern of a search. -/
def Matches (name d_name : Bytes) : Bool :=
  if name = allFiles then true
  else if hasWildcard name then env.fnmatch name d_name
  else stricmp name d_name

/-- The entries that match and can be examined, with what is found out about them. -/
def hits (p : Bytes → Bool) (path : Bytes) (dir : List Bytes) : List (Bytes × Stat) :=
  dir.filterMap fun d_name =>
    if p d_name then (examine env path d_name).map fun st => (d_name, st) else none

/-- The data of an entry. -/
def dataOf (e : Bytes × Stat) : FindData := fill e.1 e.2 ⟨0, 0, 0, 0, 0, 0, [], []⟩

/-- The calls report these entries in this order, and then nothing. -/
def Reports : List (Bool × FindData) → List (Bytes × Stat) → Prop
  | [], _ => True
  | r :: rs, [] => r.1 = false ∧ Reports rs []
  | r :: rs, e :: es => (r.1 = true ∧ r.2 = dataOf e) ∧ Reports rs es

/-- The directory of a pattern: `/` if nothing is in front of the slash. -/
def dirOf (path : Bytes) : Bytes := if path = [] then [47] else path

/-- What is supported. -/
def Supported (level search_op : ℕ) : Prop :=
  (search_op = FindExSearchNameMatch ∨ search_op = FindExSearchLimitToDirectories) ∧
    (level = FindExInfoStandard ∨ level = FindExInfoBasic)

instance decidableSupported (level search_op : ℕ) : Decidable (Supported level search_op) :=
  inferInstanceAs (Decidable (_ ∧ _))

/-- The directory that a search is about, by the path and the name of its pattern. -/
def Names (filename path name : Bytes) (dir : List Bytes) : Prop :=
  lastSlash filename = some (path, name) ∧ name.length ≤ MAX_PATH ∧
    env.opendir (dirOf path) = some dir

/-- What there is to be found; nothing if the arguments are rejected. -/
def toBeFound (filename : Bytes) (level search_op : ℕ) : List (Bytes × Stat) :=
  match lastSlash filename with
  | none => []
  | some (path, name) =>
    if MAX_PATH < name.length ∨ ¬ Supported level search_op then []
    else
      match env.opendir (dirOf path) with
      | none => []
      | some dir => hits env (Matches env name) path dir

/-- What is owed if these entries are to be found: no handle, and no directory left open, if there
are none; else each once and in order, with its data, and then nothing. -/
def Owed (es : List (Bytes × Stat)) (opened : ℕ) : First → Prop
  | .undefined => False
  | .invalid opened' => opened' = opened ∧ es = []
  | .handle info dir data opened' =>
    opened' = opened + 1 ∧ es ≠ [] ∧
      ∀ n olds, Reports ((data.map fun d => (true, d)).toList ++ calls env info n dir olds) es

/-- **What a search owes its caller** -/
def Exact (filename : Bytes) (level search_op : ℕ) (given : Bool) : Prop :=
  ∀ (opened : ℕ) (old : FindData), Owed env (toBeFound env filename level search_op) opened
    (findFirstFileExA env opened filename level (if given then some old else none) search_op)

/-- **When a search is exact** -/
structure Clean (level search_op : ℕ) (given : Bool) (path name : Bytes) (dir : List Bytes) :
    Prop where
  /-- The root has nothing to be found. -/
  root : path = [] → Supported level search_op → hits env (Matches env name) path dir = []
  supported : path ≠ [] → Supported level search_op
  room : path ≠ [] → path.length < MAX_PATH ∧ name.length < MAX_PATH
  /-- A plain name is looked for with the standard level only. -/
  plain : path ≠ [] → level ≠ FindExInfoStandard → hasWildcard name = false →
    hits env (Matches env name) path dir = []
  /-- The last entry is not one that matches and cannot be examined. -/
  last : path ≠ [] → (level = FindExInfoStandard ∨ hasWildcard name = true) →
    ∀ d_name, dir.getLast? = some d_name → Matches env name d_name = true →
      examine env path d_name ≠ none
  kinds : path ≠ [] → ∀ e ∈ hits env (Matches env name) path dir, e.2.st_mode ≠ .other
  data : path ≠ [] → hits env (Matches env name) path dir = [] → given = true

end Search

section Calls

variable {env : Env} {info : FindInfo}

/-- The test of the loop for an entry that comes first. -/
def codeMatch (env : Env) (info : FindInfo) (d_name : Bytes) : Bool := matchOf env info false d_name

/-- The loop does not test plain names at this level. -/
def Blind (info : FindInfo) : Prop :=
  info.filterAll = false ∧ info.wildcard = false ∧ info.level ≠ FindExInfoStandard

theorem matchOf_eq {bMatch : Bool} (h : Blind info → bMatch = false) (d_name : Bytes) :
    matchOf env info bMatch d_name = codeMatch env info d_name := by
  unfold codeMatch matchOf
  split_ifs with hall hwild hlevel
  · rfl
  · rfl
  · rfl
  · exact h ⟨Bool.eq_false_iff.2 hall, Bool.eq_false_iff.2 hwild, hlevel⟩

theorem codeMatch_of_blind (h : Blind info) (d_name : Bytes) :
    codeMatch env info d_name = false := by
  unfold codeMatch matchOf
  simp only [h.1, h.2.1, h.2.2, Bool.false_eq_true, if_false]

theorem not_blind_of_codeMatch {d_name : Bytes} (h : codeMatch env info d_name = true) :
    ¬ Blind info := fun hblind => by
  rw [codeMatch_of_blind hblind] at h
  exact Bool.noConfusion h

theorem hits_cons (p : Bytes → Bool) (path d_name : Bytes) (dir : List Bytes) :
    hits env p path (d_name :: dir) =
      (if p d_name then ((examine env path d_name).map fun st => (d_name, st)).toList else []) ++
        hits env p path dir := by
  unfold hits
  rw [List.filterMap_cons]
  by_cases hp : p d_name = true
  · simp only [hp, if_true]
    cases examine env path d_name <;> rfl
  · rw [Bool.not_eq_true] at hp
    simp only [hp, Bool.false_eq_true, if_false, List.nil_append]

/-- The last entry matches and cannot be examined. -/
def Spurious (env : Env) (info : FindInfo) (dir : List Bytes) : Prop :=
  ∃ d_name, dir.getLast? = some d_name ∧ codeMatch env info d_name = true ∧
    examine env info.path d_name = none

theorem spurious_cons {d_name : Bytes} {dir : List Bytes} (h : dir ≠ []) :
    Spurious env info (d_name :: dir) ↔ Spurious env info dir := by
  unfold Spurious
  rw [List.getLast?_cons_of_ne_nil h]

/-- **A call that finds nothing** reads all entries; what it returns is the test of the last. -/
theorem findNextLoop_of_hits_nil {dir : List Bytes} (bMatch : Bool) (data : FindData)
    (hblind : Blind info → bMatch = false)
    (h : hits env (codeMatch env info) info.path dir = []) :
    (findNextLoop env info dir bMatch data).2 = ([], data) ∧
      ((findNextLoop env info dir bMatch data).1 = true ↔
        (dir = [] ∧ bMatch = true) ∨ Spurious env info dir) := by
  induction dir generalizing bMatch with
  | nil => exact ⟨rfl, by simp [findNextLoop, Spurious]⟩
  | cons d_name dir ih =>
    rw [hits_cons, List.append_eq_nil_iff] at h
    obtain ⟨hnone, hrest⟩ := h
    rw [findNextLoop]
    simp only [matchOf_eq hblind]
    have hspurious : Spurious env info (d_name :: dir) ↔
        (dir = [] ∧ codeMatch env info d_name = true) ∨ Spurious env info dir := by
      rcases eq_or_ne dir [] with rfl | hne
      · constructor
        · rintro ⟨e, he, hmatch, -⟩
          obtain rfl := Option.some.inj he
          exact .inl ⟨rfl, hmatch⟩
        · rintro (⟨-, hmatch⟩ | ⟨e, he, -⟩)
          · refine ⟨d_name, rfl, hmatch, ?_⟩
            rw [if_pos hmatch] at hnone
            simpa using hnone
          · cases he
      · simp only [spurious_cons hne, hne, false_and, false_or]
    simp only [hspurious, List.cons_ne_nil, false_and, false_or]
    by_cases hmatch : codeMatch env info d_name = true
    · rw [if_pos hmatch] at hnone
      have hexamine : examine env info.path d_name = none := by simpa using hnone
      simp only [hmatch, hexamine, Bool.true_eq_false, if_false]
      simpa only using ih true (fun hb => absurd hb (not_blind_of_codeMatch hmatch)) hrest
    · rw [Bool.not_eq_true] at hmatch
      simp only [hmatch, if_true]
      simpa only using ih false (fun _ => rfl) hrest

/-- **A call that finds something** stops behind the first entry that is to be found. -/
theorem findNextLoop_of_hits_cons {dir : List Bytes} (bMatch : Bool)
    {e : Bytes × Stat} {es : List (Bytes × Stat)} (hblind : Blind info → bMatch = false)
    (h : hits env (codeMatch env info) info.path dir = e :: es) :
    ∃ rest, (∀ data, findNextLoop env info dir bMatch data = (true, rest, fill e.1 e.2 data)) ∧
      hits env (codeMatch env info) info.path rest = es ∧
      (Spurious env info dir ↔ Spurious env info rest) := by
  induction dir generalizing bMatch with
  | nil => cases h
  | cons d_name dir ih =>
    rw [hits_cons] at h
    simp only [findNextLoop, matchOf_eq hblind]
    have hskip : hits env (codeMatch env info) info.path dir = e :: es →
        (Spurious env info (d_name :: dir) ↔ Spurious env info dir) := by
      intro h
      refine spurious_cons fun hnil => ?_
      rw [hnil] at h
      cases h
    by_cases hmatch : codeMatch env info d_name = true
    · simp only [hmatch, Bool.true_eq_false, if_false]
      rw [if_pos hmatch] at h
      cases hexamine : examine env info.path d_name with
      | some st =>
        rw [hexamine] at h
        obtain ⟨rfl, hes⟩ := List.cons.inj h
        refine ⟨dir, fun data => rfl, hes, ?_⟩
        rcases eq_or_ne dir [] with rfl | hne
        · refine iff_of_false ?_ ?_
          · rintro ⟨d, hd, -, hnone⟩
            obtain rfl : d_name = d := by simpa using hd
            rw [hexamine] at hnone
            cases hnone
          · rintro ⟨d, hd, -⟩
            cases hd
        · exact spurious_cons hne
      | none =>
        rw [hexamine] at h
        obtain ⟨rest, hrest⟩ :=
          ih true (fun hb => absurd hb (not_blind_of_codeMatch hmatch)) h
        exact ⟨rest, hrest.1, hrest.2.1, (hskip h).trans hrest.2.2⟩
    · rw [if_neg hmatch] at h
      rw [Bool.not_eq_true] at hmatch
      simp only [hmatch, if_true]
      obtain ⟨rest, hrest⟩ := ih false (fun _ => rfl) h
      exact ⟨rest, hrest.1, hrest.2.1, (hskip h).trans hrest.2.2⟩

theorem fill_eq_dataOf_iff (e : Bytes × Stat) :
    (∀ data, fill e.1 e.2 data = dataOf e) ↔ e.2.st_mode ≠ .other := by
  constructor
  · intro h hother
    have := congrArg FindData.dwFileAttributes (h ⟨1, 0, 0, 0, 0, 0, [], []⟩)
    simp only [dataOf, fill, hother] at this
    split_ifs at this <;> exact absurd this (by decide)
  · intro h data
    unfold dataOf fill
    cases hmode : e.2.st_mode with
    | regular => rfl
    | directory => rfl
    | other => exact absurd hmode h

theorem calls_nil (n : ℕ) (old : ℕ → FindData) : Reports (calls env info n [] old) [] := by
  induction n generalizing old with
  | zero => trivial
  | succ n ih => exact ⟨rfl, ih _⟩

/-- **What the calls of `FindNextFile` report**: each entry that is to be found, if these are files
and directories and the last entry is no match that cannot be examined. -/
theorem reports_calls_iff (env : Env) (info : FindInfo) (dir : List Bytes) :
    (∀ n old, Reports (calls env info n dir old)
        (hits env (codeMatch env info) info.path dir)) ↔
      ¬ Spurious env info dir ∧
        ∀ e ∈ hits env (codeMatch env info) info.path dir, e.2.st_mode ≠ .other := by
  generalize hes : hits env (codeMatch env info) info.path dir = es
  induction es generalizing dir with
  | nil =>
    have hloop := fun data => findNextLoop_of_hits_nil false data (fun _ => rfl) hes
    constructor
    · intro h
      refine ⟨fun hspurious => ?_, fun e he => absurd he List.not_mem_nil⟩
      have hfirst := (h 1 fun _ => ⟨0, 0, 0, 0, 0, 0, [], []⟩).1
      have htrue := (hloop ⟨0, 0, 0, 0, 0, 0, [], []⟩).2.2 (.inr hspurious)
      rw [findNextFileA] at hfirst
      rw [hfirst] at htrue
      exact Bool.noConfusion htrue
    · rintro ⟨hno, -⟩ n old
      cases n with
      | zero => trivial
      | succ n =>
        have hfalse : (findNextLoop env info dir false (old 0)).1 = false := by
          refine Bool.eq_false_iff.2 fun htrue => ?_
          rcases (hloop (old 0)).2.1 htrue with ⟨-, hb⟩ | hspurious
          · exact Bool.noConfusion hb
          · exact hno hspurious
        refine ⟨hfalse, ?_⟩
        simp only [findNextFileA, (hloop (old 0)).1]
        exact calls_nil n _
  | cons e es ih =>
    obtain ⟨rest, hloop, hrest, hspurious⟩ :=
      findNextLoop_of_hits_cons false (fun _ => rfl) hes
    have hcall : ∀ data, findNextFileA env info dir data = (true, rest, fill e.1 e.2 data) := hloop
    have hstep : (∀ n old, Reports (calls env info n dir old) (e :: es)) ↔
        (∀ data, fill e.1 e.2 data = dataOf e) ∧
          ∀ n old, Reports (calls env info n rest old) es := by
      constructor
      · intro h
        refine ⟨fun data => ?_, fun n old => ?_⟩
        · have := (h 1 fun _ => data).1.2
          simpa only [hcall] using this
        · have := (h (n + 1) fun i => if i = 0 then ⟨0, 0, 0, 0, 0, 0, [], []⟩ else old (i - 1)).2
          simpa [hcall] using this
      · rintro ⟨hfill, h⟩ n old
        cases n with
        | zero => trivial
        | succ n =>
          unfold calls
          simp only [hcall]
          exact ⟨⟨rfl, hfill _⟩, h n _⟩
    rw [hstep, fill_eq_dataOf_iff, ih rest hrest, hspurious, List.forall_mem_cons]
    exact ⟨fun h => ⟨h.2.1, h.1, h.2.2⟩, fun h => ⟨h.2.1, h.1, h.2.2⟩⟩

end Calls

/-! ### A search -/

section Search

variable {env : Env} {level search_op : ℕ} {path name : Bytes} {dir : List Bytes}

/-- What `FindFirstFileExA` remembers of its arguments. -/
def infoOf (path name : Bytes) (level : ℕ) : FindInfo :=
  ⟨path, name, level, hasWildcard name, hasWildcard name && (name == allFiles)⟩

theorem hasWildcard_allFiles : hasWildcard allFiles = true := by decide

theorem blind_infoOf_iff :
    Blind (infoOf path name level) ↔ level ≠ FindExInfoStandard ∧ hasWildcard name = false := by
  unfold Blind infoOf
  constructor
  · rintro ⟨-, hwild, hlevel⟩
    exact ⟨hlevel, hwild⟩
  · rintro ⟨hlevel, hwild⟩
    exact ⟨by rw [hwild]; rfl, hwild, hlevel⟩

/-- **The tests of the loop** are those for the pattern, if it makes them. -/
theorem codeMatch_infoOf (h : ¬ Blind (infoOf path name level)) :
    codeMatch env (infoOf path name level) = Matches env name := by
  funext d_name
  rw [blind_infoOf_iff] at h
  unfold codeMatch matchOf Matches infoOf
  by_cases hall : name = allFiles
  · subst hall
    simp [hasWildcard_allFiles]
  · by_cases hwild : hasWildcard name = true
    · simp [hall, hwild]
    · have hlevel : level = FindExInfoStandard := by
        by_contra hne
        exact h ⟨hne, Bool.eq_false_iff.2 hwild⟩
      simp [hall, hwild, hlevel]

theorem hits_of_blind {info : FindInfo} (h : Blind info) (dir : List Bytes) :
    hits env (codeMatch env info) info.path dir = [] := by
  unfold hits
  rw [List.filterMap_eq_nil_iff]
  intro d_name _
  rw [codeMatch_of_blind h]
  rfl

/-- When `FindNextFile` reports from the start what is to be found. -/
theorem reports_infoOf_iff (env : Env) (path name : Bytes) (level : ℕ) (dir : List Bytes) :
    (∀ n old, Reports (calls env (infoOf path name level) n dir old)
        (hits env (Matches env name) path dir)) ↔
      (Blind (infoOf path name level) → hits env (Matches env name) path dir = []) ∧
        (¬ Blind (infoOf path name level) → ¬ Spurious env (infoOf path name level) dir) ∧
        ∀ e ∈ hits env (Matches env name) path dir, e.2.st_mode ≠ .other := by
  have hreports := reports_calls_iff env (infoOf path name level) dir
  by_cases hblind : Blind (infoOf path name level)
  · rw [hits_of_blind hblind] at hreports
    have hno : ¬ Spurious env (infoOf path name level) dir := by
      rintro ⟨d_name, -, hmatch, -⟩
      exact not_blind_of_codeMatch hmatch hblind
    have hall : ∀ n old, Reports (calls env (infoOf path name level) n dir old) [] :=
      hreports.2 ⟨hno, fun e he => absurd he List.not_mem_nil⟩
    constructor
    · intro h
      have hnil : hits env (Matches env name) path dir = [] := by
        cases hhits : hits env (Matches env name) path dir with
        | nil => rfl
        | cons e es =>
          -- The first call returns `FALSE`, though there is an entry.
          rw [hhits] at h
          have htrue := (h 1 fun _ => ⟨0, 0, 0, 0, 0, 0, [], []⟩).1.1
          have hfalse := (hall 1 fun _ => ⟨0, 0, 0, 0, 0, 0, [], []⟩).1
          exact absurd (htrue.symm.trans hfalse) (by decide)
      exact ⟨fun _ => hnil, fun hb => absurd hblind hb,
        fun e he => absurd (hnil ▸ he) List.not_mem_nil⟩
    · rintro ⟨hnil, -, -⟩
      rw [hnil hblind]
      exact hall
  · rw [codeMatch_infoOf hblind] at hreports
    refine hreports.trans ⟨fun h => ⟨fun hb => absurd hb hblind, fun _ => h.1, h.2⟩, fun h => ?_⟩
    exact ⟨h.2.1 hblind, h.2.2⟩

theorem findNextFileA_false (level : ℕ) {es : List (Bytes × Stat)}
    (hes : es = hits env (Matches env name) path dir) (hnil : es = []) (data : FindData) :
    (findNextFileA env (infoOf path name level) dir data).2.1 = [] := by
  have hcode : hits env (codeMatch env (infoOf path name level)) path dir = [] := by
    by_cases hblind : Blind (infoOf path name level)
    · exact hits_of_blind hblind dir
    · rw [codeMatch_infoOf hblind, ← hes, hnil]
  rw [findNextFileA, (findNextLoop_of_hits_nil false data (fun _ => rfl) hcode).1]

theorem firstMatch_of_true {info : FindInfo} {dir rest : List Bytes} {old data : FindData}
    (h : findNextFileA env info dir old = (true, rest, data)) (opened : ℕ) :
    firstMatch env info dir (some old) opened = .handle info rest (some data) opened := by
  unfold firstMatch
  simp only [h]

theorem firstMatch_of_false {info : FindInfo} {dir : List Bytes} {old : FindData}
    {r : List Bytes × FindData} (h : findNextFileA env info dir old = (false, r)) (opened : ℕ) :
    firstMatch env info dir (some old) opened = .invalid (opened - 1) := by
  unfold firstMatch
  simp only [h]

/-- **The first search, with the data given**, is one more call. -/
theorem owed_firstMatch_iff (env : Env) (path name : Bytes) (level : ℕ) (dir : List Bytes)
    (opened : ℕ) :
    (∀ old, Owed env (hits env (Matches env name) path dir) opened
        (firstMatch env (infoOf path name level) dir (some old) (opened + 1))) ↔
      ∀ n old, Reports (calls env (infoOf path name level) n dir old)
        (hits env (Matches env name) path dir) := by
  generalize hes : hits env (Matches env name) path dir = es
  constructor
  · intro h n old
    cases n with
    | zero => exact trivial
    | succ n =>
      have hfirst := h (old 0)
      unfold calls
      cases hcall : findNextFileA env (infoOf path name level) dir (old 0) with
      | mk found r =>
        cases found with
        | true =>
          rw [firstMatch_of_true hcall] at hfirst
          exact hfirst.2.2 n fun i => old (i + 1)
        | false =>
          rw [firstMatch_of_false hcall] at hfirst
          have hnil : es = [] := hfirst.2
          have hleft := findNextFileA_false level hes.symm hnil (old 0)
          rw [hcall] at hleft
          simp only at hleft
          rw [hnil]
          refine ⟨rfl, ?_⟩
          simp only [hleft]
          exact calls_nil n _
  · intro h old
    have hone := h 1 fun _ => old
    unfold calls at hone
    cases hcall : findNextFileA env (infoOf path name level) dir old with
    | mk found r =>
      rw [hcall] at hone
      cases found with
      | true =>
        rw [firstMatch_of_true hcall]
        refine ⟨rfl, fun hnil => ?_, fun n olds => ?_⟩
        · rw [hnil] at hone
          exact Bool.noConfusion hone.1
        · have hmore := h (n + 1) fun i => if i = 0 then old else olds (i - 1)
          unfold calls at hmore
          simpa [hcall] using hmore
      | false =>
        rw [firstMatch_of_false hcall]
        refine ⟨rfl, ?_⟩
        cases es with
        | nil => rfl
        | cons e es => exact Bool.noConfusion hone.1.1

/-- When `FindNextFile` reports what is to be found, in the words of `Clean`. -/
theorem reports_iff_clean (env : Env) (path name : Bytes) (level : ℕ) (dir : List Bytes) :
    (∀ n old, Reports (calls env (infoOf path name level) n dir old)
        (hits env (Matches env name) path dir)) ↔
      (level ≠ FindExInfoStandard → hasWildcard name = false →
        hits env (Matches env name) path dir = []) ∧
      ((level = FindExInfoStandard ∨ hasWildcard name = true) →
        ∀ d_name, dir.getLast? = some d_name → Matches env name d_name = true →
          examine env path d_name ≠ none) ∧
      ∀ e ∈ hits env (Matches env name) path dir, e.2.st_mode ≠ .other := by
  have hnot : ¬ Blind (infoOf path name level) ↔
      (level = FindExInfoStandard ∨ hasWildcard name = true) := by
    rw [blind_infoOf_iff, not_and_or, not_not, Bool.not_eq_false]
  rw [reports_infoOf_iff, blind_infoOf_iff, and_imp]
  refine and_congr_right fun _ => and_congr_left fun _ => ?_
  rw [← blind_infoOf_iff, hnot]
  refine imp_congr_right fun hseen => ?_
  unfold Spurious
  rw [codeMatch_infoOf (hnot.2 hseen)]
  constructor
  · intro h d_name hlast hmatch hnone
    exact h ⟨d_name, hlast, hmatch, hnone⟩
  · rintro h ⟨d_name, hlast, hmatch, hnone⟩
    exact h d_name hlast hmatch hnone

/-- A search in a directory that can be opened, with what is supported and fits. -/
theorem exact_iff_clean {filename : Bytes} {given : Bool}
    (hsplit : lastSlash filename = some (path, name)) (hpath : path ≠ [])
    (hdir : env.opendir path = some dir) (hsupported : Supported level search_op)
    (hroom : path.length < MAX_PATH ∧ name.length < MAX_PATH) :
    Exact env filename level search_op given ↔ Clean env level search_op given path name dir := by
  have hfound : toBeFound env filename level search_op = hits env (Matches env name) path dir := by
    unfold toBeFound
    rw [hsplit]
    simp only [hsupported, not_true_eq_false, or_false, if_neg (not_lt.2 hroom.2.le), dirOf,
      if_neg hpath, hdir]
  have hfirst : ∀ opened data, findFirstFileExA env opened filename level data search_op =
      firstMatch env (infoOf path name level) dir data (opened + 1) := by
    intro opened data
    unfold findFirstFileExA
    rw [hsplit]
    simp only [hdir]
    rw [if_neg (by omega), if_neg fun h => hsupported.1.elim h.1 h.2,
      if_neg fun h => hsupported.2.elim h.1 h.2, if_neg (by omega)]
    rfl
  have hclean : Clean env level search_op given path name dir ↔
      (∀ n old, Reports (calls env (infoOf path name level) n dir old)
        (hits env (Matches env name) path dir)) ∧
      (hits env (Matches env name) path dir = [] → given = true) := by
    rw [reports_iff_clean]
    constructor
    · intro h
      exact ⟨⟨h.plain hpath, h.last hpath, h.kinds hpath⟩, h.data hpath⟩
    · rintro ⟨⟨hplain, hlast, hkinds⟩, hdata⟩
      exact ⟨fun h => absurd h hpath, fun _ => hsupported, fun _ => hroom, fun _ => hplain,
        fun _ => hlast, fun _ => hkinds, fun _ => hdata⟩
  unfold Exact
  simp only [hfound, hfirst]
  rw [hclean]
  cases given with
  | true =>
    simp only [if_true, implies_true, and_true, owed_firstMatch_iff, forall_const]
  | false =>
    simp only [Bool.false_eq_true, if_false, imp_false, firstMatch, Owed, Option.map_none,
      Option.toList_none, List.nil_append, true_and, forall_const]
    exact ⟨fun h => (h ⟨0, 0, 0, 0, 0, 0, [], []⟩).symm, fun h _ => h.symm⟩

theorem exact_root_iff {filename : Bytes} (given : Bool)
    (hsplit : lastSlash filename = some ([], name)) (hlen : name.length ≤ MAX_PATH) :
    Exact env filename level search_op given ↔
      ∀ dir, env.opendir (dirOf []) = some dir → Clean env level search_op given [] name dir := by
  have hfirst : ∀ opened data,
      findFirstFileExA env opened filename level data search_op = .invalid opened := by
    intro opened data
    unfold findFirstFileExA
    rw [hsplit]
    simp only [env.opendir_nil, ite_self]
  have hexact : Exact env filename level search_op given ↔
      toBeFound env filename level search_op = [] := by
    unfold Exact
    simp only [hfirst, Owed, true_and]
    exact ⟨fun h => h 0 ⟨0, 0, 0, 0, 0, 0, [], []⟩, fun h _ _ => h⟩
  have hclean : ∀ dir, Clean env level search_op given [] name dir ↔
      (Supported level search_op → hits env (Matches env name) [] dir = []) := by
    intro dir
    refine ⟨fun h => h.root rfl, fun h => ⟨fun _ => h, ?_, ?_, ?_, ?_, ?_, ?_⟩⟩ <;>
      exact fun hne => absurd rfl hne
  rw [hexact]
  simp only [hclean]
  unfold toBeFound
  rw [hsplit]
  simp only [not_lt.2 hlen, false_or]
  by_cases hsupported : Supported level search_op
  · simp only [hsupported, not_true_eq_false, if_false, true_implies]
    cases env.opendir (dirOf []) with
    | none => simp
    | some dir => simp
  · simp [hsupported]

theorem exact_of_opendir_none {filename : Bytes} (given : Bool)
    (hsplit : lastSlash filename = some (path, name)) (hpath : path ≠ [])
    (hdir : env.opendir path = none) : Exact env filename level search_op given := by
  intro opened old
  unfold findFirstFileExA toBeFound
  rw [hsplit]
  simp only [hdir, ite_self, dirOf, if_neg hpath]
  exact ⟨rfl, rfl⟩

theorem not_exact {filename : Bytes} (given : Bool)
    (hsplit : lastSlash filename = some (path, name)) (hlen : name.length ≤ MAX_PATH)
    (hdir : env.opendir path = some dir)
    (h : ¬ (Supported level search_op ∧ path.length < MAX_PATH ∧ name.length < MAX_PATH)) :
    ¬ Exact env filename level search_op given := by
  intro hexact
  have howed := hexact 0 ⟨0, 0, 0, 0, 0, 0, [], []⟩
  generalize (if given = true then some _ else none) = data at howed
  unfold findFirstFileExA at howed
  rw [hsplit] at howed
  simp only [hdir] at howed
  rw [if_neg (by omega)] at howed
  split_ifs at howed with hop hlevel hroom
  · exact absurd howed.1 (by decide)
  · exact absurd howed.1 (by decide)
  · exact howed
  · refine h ⟨⟨?_, ?_⟩, ?_⟩
    · exact (not_and_or.1 hop).imp not_not.1 not_not.1
    · exact (not_and_or.1 hlevel).imp not_not.1 not_not.1
    · omega

/-- **When a search is exact.** -/
theorem exact_iff (env : Env) (filename : Bytes) (level search_op : ℕ) (given : Bool) :
    Exact env filename level search_op given ↔
      ∀ path name dir, Names env filename path name dir →
        Clean env level search_op given path name dir := by
  cases hsplit : lastSlash filename with
  | none =>
    refine iff_of_true (fun opened old => ?_) fun path name dir h => ?_
    · unfold findFirstFileExA toBeFound
      rw [hsplit]
      exact ⟨rfl, rfl⟩
    · rw [Names, hsplit] at h
      exact absurd h.1 (by simp)
  | some pn =>
    obtain ⟨path, name⟩ := pn
    have hnames : ∀ P : Bytes → Bytes → List Bytes → Prop,
        (∀ path' name' dir, Names env filename path' name' dir → P path' name' dir) ↔
          (name.length ≤ MAX_PATH → ∀ dir, env.opendir (dirOf path) = some dir →
            P path name dir) := by
      intro P
      constructor
      · exact fun h hlen dir hdir => h path name dir ⟨hsplit, hlen, hdir⟩
      · rintro h path' name' dir ⟨hsplit', hlen, hdir⟩
        obtain ⟨rfl, rfl⟩ := Prod.mk.inj (Option.some.inj (hsplit.symm.trans hsplit'))
        exact h hlen dir hdir
    rw [hnames fun path name dir => Clean env level search_op given path name dir]
    rcases Nat.lt_or_ge MAX_PATH name.length with hlong | hlen
    · refine iff_of_true (fun opened old => ?_) fun h => absurd hlong (not_lt.2 h)
      unfold findFirstFileExA toBeFound
      rw [hsplit]
      simp only [if_pos (show MAX_PATH + 2 ≤ name.length + 1 by omega), hlong, true_or, if_true]
      exact ⟨rfl, rfl⟩
    · simp only [hlen, true_implies]
      rcases eq_or_ne path [] with rfl | hpath
      · exact exact_root_iff given hsplit hlen
      · rw [dirOf, if_neg hpath]
        cases hdir : env.opendir path with
        | none =>
          exact iff_of_true (exact_of_opendir_none given hsplit hpath hdir) fun dir h => by cases h
        | some dir =>
          simp only [Option.some.injEq, forall_eq']
          by_cases h : Supported level search_op ∧ path.length < MAX_PATH ∧ name.length < MAX_PATH
          · exact exact_iff_clean hsplit hpath hdir h.1 h.2
          · refine iff_of_false (not_exact given hsplit hlen hdir h) fun hclean => h ?_
            exact ⟨hclean.supported hpath, hclean.room hpath⟩

/-- A directory `d` with a file `a` and a link `b` that leads nowhere. -/
def dangling : Env where
  opendir path := if path = [100] then some [[97], [98]] else none
  opendir_nil := rfl
  stat path := if path = [100, 47, 97] then some ⟨.regular, 0, ⟨0, 0⟩, ⟨0, 0⟩, ⟨0, 0⟩⟩ else none
  fnmatch _ _ := true

/-- **A name is reported that cannot be examined**: a search for `d/*.*` finds `a`, and the next
call returns `TRUE` and leaves the data as they are. -/
theorem spurious : ¬ Exact dangling [100, 47, 42, 46, 42] FindExInfoStandard FindExSearchNameMatch
      true ∧
    ∀ old, findNextFileA dangling (infoOf [100] allFiles FindExInfoStandard) [[98]] old =
      (true, [], old) := by
  refine ⟨fun h => ?_, fun old => rfl⟩
  have hclean := (exact_iff dangling _ _ _ _).1 h [100] allFiles [[97], [98]]
    ⟨by decide, by decide, rfl⟩
  exact hclean.last (by decide) (.inl rfl) [98] rfl (by decide) rfl

end Search

end FindFile

end Swinx
