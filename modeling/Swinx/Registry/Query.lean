import Swinx.Data.Bytes
import Swinx.Data.Uniconv
import Swinx.Registry.Structure

/-!
# Setting and querying values

`RegSetValueEx` and `RegQueryValueEx` have an `A` and a `W` form.  The store keeps UTF-8: the `W`
form converts a text up to its terminator, the `A` form stores what it is given, and a query puts a
terminator behind what is stored.  Both look a value up by its name in lower case.

The pointer to the size is given.

* `answers_iff` — a query reports the size, and writes nothing behind the bytes, if and only if the
  size fits a `DWORD`.
* `bringsBack_iff` — a value is brought back if and only if the handle is an opened one, not a text
  with its terminator is set and queried by the `A` forms, and the sizes fit.
-/

namespace Swinx

namespace Registry

open Uniconv

def REG_EXPAND_SZ : UInt32 := 2

/-- A value of this type is text. -/
abbrev IsText (type : UInt32) : Prop := type = REG_SZ ∨ type = REG_EXPAND_SZ

/-- The form of a call. -/
inductive Form
  | A
  | W
  deriving DecidableEq, Repr

/-- `lpValueName` in its form. -/
inductive ValueName
  | A (lpValueName : Option Bytes)
  | W (lpValueName : Option (List ℕ))
  deriving DecidableEq, Repr

def ValueName.form : ValueName → Form
  | .A _ => .A
  | .W _ => .W

/-- The string at a pointer to `wchar_t`. -/
def wcstr (s : List ℕ) : List ℕ := s.takeWhile (· ≠ 0)

variable (wide : Wide)

/-- The name as the calls look for it, but for its case. -/
def ValueName.name : ValueName → Bytes
  | .A lpValueName => cstr (lpValueName.getD [])
  | .W lpValueName => tostring wide 0 (wcstr (lpValueName.getD []))

/-- `wchar_t` in memory. -/
def wideBytes (us : List ℕ) : Bytes := Bytes.ofWords wide.size us

/-! ### Setting a value -/

def RegSetValueExA (st : RegistryStore) (hKey : HKEY) (lpValueName : Option Bytes) (dwType : UInt32)
    (data : Bytes) (flushed : Bool) : Reply × RegistryStore :=
  RegSetValueEx st hKey lpValueName ⟨dwType, data⟩ flushed

/-- The text is stored as UTF-8. -/
def RegSetValueExW (st : RegistryStore) (hKey : HKEY) (lpValueName : Option (List ℕ))
    (dwType : UInt32) (data : Bytes) (flushed : Bool) : Reply × RegistryStore :=
  RegSetValueEx st hKey (lpValueName.map fun s => tostring wide 0 (wcstr s))
    ⟨dwType, if IsText dwType then tostring wide 0 (wcstr (Bytes.words wide.size data)) else data⟩
    flushed

/-- `RegSetValueEx` in the form of the name. -/
def setValue (st : RegistryStore) (hKey : HKEY) (name : ValueName) (dwType : UInt32) (data : Bytes)
    (flushed : Bool) : Reply × RegistryStore :=
  match name with
  | .A lpValueName => RegSetValueExA st hKey lpValueName dwType data flushed
  | .W lpValueName => RegSetValueExW wide st hKey lpValueName dwType data flushed

/-! ### Querying a value -/

/-- The codes of the calls that read. -/
inductive ReadCode
  | ERROR_SUCCESS
  | ERROR_FILE_NOT_FOUND
  | ERROR_INVALID_HANDLE
  | ERROR_MORE_DATA
  | ERROR_NO_MORE_ITEMS
  deriving DecidableEq, Repr

/-- What a query returns. -/
structure QueryReply where
  code : ReadCode
  /-- `*lpType`, if it is written. -/
  type : Option UInt32
  /-- `*lpcbData` -/
  cbData : ℕ
  /-- The memory from `lpData` on, if there is a buffer. -/
  memory : Option Bytes
  deriving DecidableEq, Repr

/-- `(DWORD)n` -/
def dword (n : ℕ) : ℕ := n % 2 ^ 32

/-- `stringValueBytes` -/
def stringValueBytes (utf8 : Bytes) : Form → ℕ
  | .A => dword (dword utf8.length + 1)
  | .W => dword ((towstringLength wide (cstr utf8) + 1) * wide.size)

/-- The size of a value that is reported. -/
def required (form : Form) (value : RegistryValue) : ℕ :=
  if IsText value.type then stringValueBytes wide value.data form else dword value.data.length

/-- What is copied into the buffer. -/
def valueBytes (form : Form) (value : RegistryValue) : Bytes :=
  if IsText value.type then
    match form with
    | .A => value.data ++ [0]
    | .W => wideBytes wide (towstring wide 0 (cstr value.data))
  else value.data

/-- `pathOfHandle`, and the value of this name. -/
def findValue (st : RegistryStore) (hKey : HKEY) (name : Bytes) : Except ReadCode RegistryValue :=
  match st.openHandles.find? hKey with
  | none => .error .ERROR_INVALID_HANDLE
  | some path =>
    match (st.keys.find? path).bind fun key => key.values.find? (lowerAscii name) with
    | none => .error .ERROR_FILE_NOT_FOUND
    | some value => .ok value

/-- `queryValue`, with the memory at `lpData`. -/
def queryValue (st : RegistryStore) (hKey : HKEY) (name : ValueName) (lpData : Option Bytes)
    (cbData : ℕ) : QueryReply :=
  match findValue st hKey (name.name wide) with
  | .error code =>
    { code := code
      type := none
      cbData := cbData
      memory := lpData }
  | .ok value =>
    match lpData with
    | none =>
      { code := .ERROR_SUCCESS
        type := some value.type
        cbData := required wide name.form value
        memory := none }
    | some memory =>
      if cbData < required wide name.form value then
        { code := .ERROR_MORE_DATA
          type := some value.type
          cbData := required wide name.form value
          memory := some memory }
      else
        { code := .ERROR_SUCCESS
          type := some value.type
          cbData := required wide name.form value
          memory := some (valueBytes wide name.form value ++
            memory.drop (valueBytes wide name.form value).length) }

/-! ### What a query answers -/

/-- The bytes that a text takes in a form, with its terminator. -/
def textBytes (utf8 : Bytes) : Form → ℕ
  | .A => utf8.length + 1
  | .W => (towstringLength wide (cstr utf8) + 1) * wide.size

/-- The bytes that a value takes in a form. -/
def sizeIn (form : Form) (value : RegistryValue) : ℕ :=
  if IsText value.type then textBytes wide value.data form else value.data.length

/-- **The value of the name has this type and these bytes**: without a buffer the size is reported,
a smaller buffer stays as it is, and nothing is written behind the bytes. -/
def Answers (st : RegistryStore) (hKey : HKEY) (name : ValueName) (type : UInt32)
    (bytes : Bytes) : Prop :=
  (∀ cbData, queryValue wide st hKey name none cbData =
    ⟨.ERROR_SUCCESS, some type, bytes.length, none⟩) ∧
  ∀ memory cbData, queryValue wide st hKey name (some memory) cbData =
    if cbData < bytes.length then ⟨.ERROR_MORE_DATA, some type, bytes.length, some memory⟩
    else ⟨.ERROR_SUCCESS, some type, bytes.length, some (bytes ++ memory.drop bytes.length)⟩

variable {wide} {st : RegistryStore} {hKey : HKEY}

theorem stringValueBytes_eq (wide : Wide) (utf8 : Bytes) (form : Form) :
    stringValueBytes wide utf8 form = dword (textBytes wide utf8 form) := by
  cases form with
  | A => exact Nat.mod_add_mod utf8.length (2 ^ 32) 1
  | W => rfl

/-- What is reported is the size as a `DWORD`. -/
theorem required_eq (wide : Wide) (form : Form) (value : RegistryValue) :
    required wide form value = dword (sizeIn wide form value) := by
  unfold required sizeIn
  split_ifs
  · exact stringValueBytes_eq wide value.data form
  · rfl

theorem length_valueBytes (form : Form) (value : RegistryValue) :
    (valueBytes wide form value).length = sizeIn wide form value := by
  unfold valueBytes sizeIn
  split_ifs
  · cases form with
    | A => exact List.length_append
    | W => rw [wideBytes, Bytes.length_ofWords, length_towstring, textBytes]
  · rfl

theorem queryValue_none {name : ValueName} {value : RegistryValue}
    (h : findValue st hKey (name.name wide) = .ok value) (cbData : ℕ) :
    queryValue wide st hKey name none cbData =
      ⟨.ERROR_SUCCESS, some value.type, dword (sizeIn wide name.form value), none⟩ := by
  simp only [queryValue, h, required_eq]

theorem queryValue_some {name : ValueName} {value : RegistryValue}
    (h : findValue st hKey (name.name wide) = .ok value) (memory : Bytes) (cbData : ℕ) :
    queryValue wide st hKey name (some memory) cbData =
      if cbData < dword (sizeIn wide name.form value) then
        ⟨.ERROR_MORE_DATA, some value.type, dword (sizeIn wide name.form value), some memory⟩
      else
        ⟨.ERROR_SUCCESS, some value.type, dword (sizeIn wide name.form value),
          some (valueBytes wide name.form value ++
            memory.drop (sizeIn wide name.form value))⟩ := by
  simp only [queryValue, h, required_eq, length_valueBytes]

/-- **A query answers with the bytes of the value** if and only if their number is a `DWORD`. -/
theorem answers_iff {name : ValueName} {value : RegistryValue}
    (h : findValue st hKey (name.name wide) = .ok value) {type : UInt32} {bytes : Bytes} :
    Answers wide st hKey name type bytes ↔
      type = value.type ∧ bytes = valueBytes wide name.form value ∧
        sizeIn wide name.form value < 2 ^ 32 := by
  unfold Answers
  simp only [queryValue_none h, queryValue_some h]
  constructor
  · rintro ⟨hsize, hmemory⟩
    have hreply := hsize 0
    simp only [QueryReply.mk.injEq, Option.some.injEq, true_and, and_true] at hreply
    obtain ⟨htype, hlength⟩ := hreply
    -- Into no memory the bytes are written whole.
    have hbytes := hmemory [] bytes.length
    rw [if_neg (by omega), if_neg (lt_irrefl _)] at hbytes
    simp only [List.drop_nil, List.append_nil, QueryReply.mk.injEq, Option.some.injEq,
      true_and] at hbytes
    refine ⟨htype.symm, hbytes.2.2.symm, ?_⟩
    rw [← length_valueBytes, hbytes.2.2, ← hlength]
    exact Nat.mod_lt _ (by decide)
  · rintro ⟨rfl, rfl, hsize⟩
    simp only [dword, Nat.mod_eq_of_lt hsize, length_valueBytes, implies_true, and_self]

/-! ### What is stored -/

/-- The value that is stored. -/
def storedValue (wide : Wide) (form : Form) (dwType : UInt32) (data : Bytes) : RegistryValue :=
  ⟨dwType, match form with
    | .A => data
    | .W => if IsText dwType then tostring wide 0 (wcstr (Bytes.words wide.size data)) else data⟩

theorem zero_notMem_wcstr (s : List ℕ) : 0 ∉ wcstr s := fun h => by
  simpa using List.mem_takeWhile_imp h

/-- The calls read the string at the pointer, which is what the name is. -/
theorem ValueName.cstr_name (wide : Wide) (name : ValueName) :
    cstr (name.name wide) = name.name wide := by
  refine cstr_eq_self ?_
  cases name with
  | A s => exact zero_notMem_cstr _
  | W s => exact zero_notMem_tostring wide 0 (zero_notMem_wcstr _)

theorem setValue_eq (wide : Wide) (st : RegistryStore) (hKey : HKEY) (name : ValueName)
    (dwType : UInt32) (data : Bytes) (flushed : Bool) :
    setValue wide st hKey name dwType data flushed =
      RegSetValueEx st hKey (some (name.name wide)) (storedValue wide name.form dwType data)
        flushed := by
  have hname := name.cstr_name wide
  cases name with
  | A s =>
    unfold setValue RegSetValueExA RegSetValueEx
    simp only [Option.getD_some, hname]
    rfl
  | W s =>
    have harg : (s.map fun s => tostring wide 0 (wcstr s)).getD [] =
        (ValueName.W s).name wide := by
      cases s with
      | none => cases wide <;> rfl
      | some s => rfl
    unfold setValue RegSetValueExW RegSetValueEx
    simp only [Option.getD_some, harg, hname]
    rfl

/-- **A value that is set is found** under every spelling of its name. -/
theorem findValue_setValue {name : ValueName} {path : Bytes} {key : RegistryKey}
    (hpath : st.openHandles.find? hKey = some path) (hkey : st.keys.find? path = some key)
    (dwType : UInt32) (data : Bytes) (flushed : Bool) {n : Bytes}
    (hn : lowerAscii n = lowerAscii (name.name wide)) :
    (setValue wide st hKey name dwType data flushed).1.code = flushCode flushed ∧
      findValue (setValue wide st hKey name dwType data flushed).2 hKey n =
        .ok (storedValue wide name.form dwType data) := by
  have hname := name.cstr_name wide
  rw [setValue_eq, RegSetValueEx, hpath]
  simp only [hkey, Option.getD_some, hname]
  refine ⟨trivial, ?_⟩
  simp only [findValue, hpath, SortedMap.find?_insert_self, Option.bind_some, hn]

/-- The values of other names stay. -/
theorem findValue_setValue_of_ne {name : ValueName} {path : Bytes} {key : RegistryKey}
    (hpath : st.openHandles.find? hKey = some path) (hkey : st.keys.find? path = some key)
    (dwType : UInt32) (data : Bytes) (flushed : Bool) {n : Bytes}
    (hn : lowerAscii n ≠ lowerAscii (name.name wide)) :
    findValue (setValue wide st hKey name dwType data flushed).2 hKey n = findValue st hKey n := by
  have hname := name.cstr_name wide
  rw [setValue_eq, RegSetValueEx, hpath]
  simp only [hkey, Option.getD_some, hname]
  simp only [findValue, hpath, hkey, SortedMap.find?_insert_self, Option.bind_some,
    SortedMap.find?_insert_of_ne hn]

/-! ### Text -/

/-- Characters as data of a form. -/
def encoded (wide : Wide) (form : Form) (cs : List ℕ) : Bytes :=
  match form with
  | .A => utf8Text cs
  | .W => wideBytes wide (wide.text cs)

theorem wcstr_append {us : List ℕ} (h : 0 ∉ us) (rest : List ℕ) :
    wcstr (us ++ rest) = us ++ wcstr rest := by
  have hall : ∀ u ∈ us, decide (u ≠ 0) = true := by
    intro u hu
    rw [decide_eq_true_eq]
    rintro rfl
    exact h hu
  rw [wcstr, List.takeWhile_append_of_pos hall, wcstr]

theorem tostring_nil (wide : Wide) (past : ℕ) : tostring wide past [] = [] := by
  cases wide <;> rfl

section

variable (wide : Wide) {cs : List ℕ} (hcs : ∀ c ∈ cs, Scalar c ∧ c ≠ 0)

include hcs

/-- The units up to the terminator become the UTF-8 of the characters. -/
theorem tostring_wcstr (rest : List ℕ) (hrest : wcstr rest = []) :
    tostring wide 0 (wcstr (wide.text cs ++ rest)) = utf8Text cs := by
  have h := tostring_text wide 0 (fun c hc => (hcs c hc).1) []
  rw [wcstr_append (zero_notMem_wideText wide hcs), hrest, h, tostring_nil, List.append_nil]

theorem storedValue_text {dwType : UInt32} (ht : IsText dwType) (form : Form) :
    storedValue wide form dwType (encoded wide form cs) = ⟨dwType, utf8Text cs⟩ := by
  cases form with
  | A => rfl
  | W =>
    have hunits := Bytes.words_ofWords wide.size_pos (wide.text_lt fun c hc => (hcs c hc).1)
    have htext := tostring_wcstr wide hcs [] rfl
    rw [List.append_nil] at htext
    simp only [storedValue, encoded, wideBytes, if_pos ht, hunits, htext]

/-- The `W` form drops the terminator, and the `A` form stores it. -/
theorem storedValue_terminated {dwType : UInt32} (ht : IsText dwType) (form : Form) :
    storedValue wide form dwType (encoded wide form (cs ++ [0])) =
      ⟨dwType, utf8Text cs ++ match form with
        | .A => [0]
        | .W => []⟩ := by
  cases form with
  | A => rw [storedValue, encoded, utf8Text_concat_zero]
  | W =>
    have hunits := Bytes.words_ofWords wide.size_pos
      (wide.text_lt (scalar_concat_zero fun c hc => (hcs c hc).1))
    simp only [storedValue, encoded, wideBytes, if_pos ht, hunits]
    rw [wideText_concat_zero, tostring_wcstr wide hcs [0] rfl, List.append_nil]

theorem valueBytes_text {dwType : UInt32} (ht : IsText dwType) (form : Form) :
    valueBytes wide form ⟨dwType, utf8Text cs⟩ = encoded wide form (cs ++ [0]) := by
  have hscalar : ∀ c ∈ cs, Scalar c := fun c hc => (hcs c hc).1
  cases form with
  | A => simp only [valueBytes, if_pos ht, encoded, utf8Text_concat_zero]
  | W =>
    simp only [valueBytes, if_pos ht, encoded, cstr_eq_self (zero_notMem_utf8Text hcs),
      towstring_text wide 0 hscalar, wideText_concat_zero]

theorem valueBytes_terminated {dwType : UInt32} (ht : IsText dwType) :
    valueBytes wide .W ⟨dwType, utf8Text cs ++ [0]⟩ = encoded wide .W (cs ++ [0]) := by
  have hcstr : cstr (utf8Text cs ++ [0]) = cstr (utf8Text cs) := by
    have hall : ∀ b ∈ utf8Text cs, decide (b ≠ 0) = true := by
      intro b hb
      rw [decide_eq_true_eq]
      rintro rfl
      exact zero_notMem_utf8Text hcs hb
    rw [cstr, List.takeWhile_append_of_pos hall, cstr_eq_self (zero_notMem_utf8Text hcs)]
    simp
  rw [← valueBytes_text wide hcs ht]
  simp only [valueBytes, if_pos ht, hcstr]

end

/-- **What was set in one form is queried**, after the value `set` was set to `data`. -/
structure BringsBack (wide : Wide) (st : RegistryStore) (hKey : HKEY) (set query : ValueName)
    (dwType : UInt32) (data : Bytes) (flushed : Bool) : Prop where
  /-- The value is set, though it may not have been written to the file. -/
  isSet : (setValue wide st hKey set dwType data flushed).1.code = flushCode flushed
  /-- The type is that which was set. -/
  type : ∃ bytes, Answers wide (setValue wide st hKey set dwType data flushed).2 hKey query dwType
    bytes
  /-- What is not text is the same bytes. -/
  kept : ¬ IsText dwType → set.form = query.form →
    Answers wide (setValue wide st hKey set dwType data flushed).2 hKey query dwType data
  /-- A text with its terminator is the text, in the other form as well. -/
  text : IsText dwType → ∀ cs, (∀ c ∈ cs, Scalar c ∧ c ≠ 0) →
    data = encoded wide set.form (cs ++ [0]) →
    Answers wide (setValue wide st hKey set dwType data flushed).2 hKey query dwType
      (encoded wide query.form (cs ++ [0]))
  /-- A text without its terminator gets one. -/
  unterminated : IsText dwType → ∀ cs, (∀ c ∈ cs, Scalar c ∧ c ≠ 0) →
    data = encoded wide set.form cs →
    Answers wide (setValue wide st hKey set dwType data flushed).2 hKey query dwType
      (encoded wide query.form (cs ++ [0]))
  /-- A query of any name answers, or it fails and writes nothing. -/
  queries : ∀ name,
    (∃ type bytes,
      Answers wide (setValue wide st hKey set dwType data flushed).2 hKey name type bytes) ∨
    ∃ code, code ≠ .ERROR_SUCCESS ∧ ∀ lpData cbData,
      queryValue wide (setValue wide st hKey set dwType data flushed).2 hKey name lpData cbData =
        ⟨code, none, cbData, lpData⟩

/-- A text with its terminator is set by the `A` form and queried by the `A` form. -/
def Doubled (set query : Form) (dwType : UInt32) (data : Bytes) : Prop :=
  set = .A ∧ query = .A ∧ IsText dwType ∧
    ∃ cs, (∀ c ∈ cs, Scalar c ∧ c ≠ 0) ∧ data = utf8Text cs ++ [0]

/-- **The sizes fit a `DWORD`**, in the key that `hKey` stands for when the value `set` was set. -/
structure SizesFit (wide : Wide) (st : RegistryStore) (hKey : HKEY) (set : ValueName)
    (dwType : UInt32) (data : Bytes) : Prop where
  /-- The value that is set, under every spelling of its name. -/
  stored : ∀ name : ValueName, lowerAscii (name.name wide) = lowerAscii (set.name wide) →
    sizeIn wide name.form (storedValue wide set.form dwType data) < 2 ^ 32
  /-- The other values. -/
  others : ∀ name : ValueName, lowerAscii (name.name wide) ≠ lowerAscii (set.name wide) →
    ∀ value, findValue st hKey (name.name wide) = .ok value → sizeIn wide name.form value < 2 ^ 32

theorem queryValue_cases (wide : Wide) (st : RegistryStore) (hKey : HKEY) (name : ValueName) :
    ((∃ type bytes, Answers wide st hKey name type bytes) ∨
      ∃ code, code ≠ .ERROR_SUCCESS ∧ ∀ lpData cbData,
        queryValue wide st hKey name lpData cbData = ⟨code, none, cbData, lpData⟩) ↔
      ∀ value, findValue st hKey (name.name wide) = .ok value →
        sizeIn wide name.form value < 2 ^ 32 := by
  cases h : findValue st hKey (name.name wide) with
  | ok value =>
    constructor
    · rintro (⟨type, bytes, hans⟩ | ⟨code, hcode, hfails⟩) value' hvalue
      · obtain rfl := Except.ok.inj hvalue
        exact ((answers_iff h).1 hans).2.2
      · have hreply := hfails none 0
        rw [queryValue_none h] at hreply
        exact absurd (congrArg QueryReply.code hreply).symm hcode
    · exact fun hfit => .inl ⟨_, _, (answers_iff h).2 ⟨rfl, rfl, hfit value rfl⟩⟩
  | error code =>
    refine iff_of_true (.inr ⟨code, ?_, fun lpData cbData => ?_⟩) (fun _ hvalue => nomatch hvalue)
    · rintro rfl
      unfold findValue at h
      split at h
      · cases h
      · split at h <;> cases h
    · rw [queryValue, h]

theorem sizesFit_iff {set : ValueName} {path : Bytes} {key : RegistryKey}
    (hpath : st.openHandles.find? hKey = some path) (hkey : st.keys.find? path = some key)
    (dwType : UInt32) (data : Bytes) (flushed : Bool) :
    SizesFit wide st hKey set dwType data ↔ ∀ name : ValueName, ∀ value,
      findValue (setValue wide st hKey set dwType data flushed).2 hKey (name.name wide) =
        .ok value → sizeIn wide name.form value < 2 ^ 32 := by
  have hfound {name : ValueName} (hn : lowerAscii (name.name wide) = lowerAscii (set.name wide)) :=
    (findValue_setValue hpath hkey dwType data flushed hn).2
  constructor
  · intro h name value hvalue
    by_cases hn : lowerAscii (name.name wide) = lowerAscii (set.name wide)
    · rw [hfound hn] at hvalue
      obtain rfl := Except.ok.inj hvalue
      exact h.stored name hn
    · rw [findValue_setValue_of_ne hpath hkey dwType data flushed hn] at hvalue
      exact h.others name hn value hvalue
  · intro h
    refine ⟨fun name hn => h name _ (hfound hn), fun name hn value hvalue => h name value ?_⟩
    rwa [findValue_setValue_of_ne hpath hkey dwType data flushed hn]

/-- A text with its terminator is brought back, unless both forms are `A`. -/
theorem valueBytes_storedValue (wide : Wide) {cs : List ℕ} (hcs : ∀ c ∈ cs, Scalar c ∧ c ≠ 0)
    {dwType : UInt32} (ht : IsText dwType) {set query : Form} (h : set = .A → query ≠ .A) :
    valueBytes wide query (storedValue wide set dwType (encoded wide set (cs ++ [0]))) =
      encoded wide query (cs ++ [0]) := by
  rw [storedValue_terminated wide hcs ht]
  cases set with
  | W =>
    dsimp only
    rw [List.append_nil, valueBytes_text wide hcs ht]
  | A =>
    cases query with
    | A => exact absurd rfl (h rfl)
    | W => exact valueBytes_terminated wide hcs ht

/-- **What a query brings back**, with an opened handle of a key. -/
theorem bringsBack_iff_of_key {path : Bytes} {key : RegistryKey} {set query : ValueName}
    (hpath : st.openHandles.find? hKey = some path) (hkey : st.keys.find? path = some key)
    (hname : lowerAscii (query.name wide) = lowerAscii (set.name wide)) (dwType : UInt32)
    (data : Bytes) (flushed : Bool) :
    BringsBack wide st hKey set query dwType data flushed ↔
      ¬ Doubled set.form query.form dwType data ∧ SizesFit wide st hKey set dwType data := by
  obtain ⟨hcode, hfound⟩ := findValue_setValue hpath hkey dwType data flushed hname
  rw [sizesFit_iff hpath hkey dwType data flushed]
  constructor
  · intro h
    refine ⟨?_, fun name => (queryValue_cases wide _ hKey name).1 (h.queries name)⟩
    rintro ⟨hset, hquery, ht, cs, hcs, rfl⟩
    have htext := h.text ht cs hcs (by rw [hset, encoded, utf8Text_concat_zero])
    have hdata := ((answers_iff hfound).1 htext).2.1
    simp only [valueBytes, storedValue, hset, hquery, if_pos ht, encoded,
      utf8Text_concat_zero] at hdata
    simp at hdata
  · rintro ⟨hno, hfit⟩
    have hans := (answers_iff hfound).2 ⟨rfl, rfl, hfit query _ hfound⟩
    refine ⟨hcode, ⟨_, hans⟩, fun ht hform => ?_, fun ht cs hcs hdata => ?_,
      fun ht cs hcs hdata => ?_, fun name => (queryValue_cases wide _ hKey name).2 (hfit name)⟩
    · have hdata : valueBytes wide query.form (storedValue wide set.form dwType data) = data := by
        rw [← hform]
        cases set.form with
        | A => exact if_neg ht
        | W => simp only [valueBytes, storedValue, if_neg ht]
      rwa [hdata] at hans
    · have hform : set.form = .A → query.form ≠ .A := fun hset hquery =>
        hno ⟨hset, hquery, ht, cs, hcs, by rw [hdata, hset, encoded, utf8Text_concat_zero]⟩
      have hbytes := valueBytes_storedValue wide hcs ht hform
      rw [← hdata] at hbytes
      rwa [hbytes] at hans
    · have hbytes := valueBytes_text wide hcs ht query.form
      rw [← storedValue_text wide hcs ht set.form, ← hdata] at hbytes
      rwa [hbytes] at hans

theorem inv_execAll (start : Start) (calls : List Call) : Inv (execAll start.store calls) := by
  have h := LTS.Reachable.invariant (I := Inv) ⟨calls, run_eq_execAll start.store calls⟩ start.inv.1
    fun st call st' hI hn => ?_
  · exact h
  · cases hn
    exact hI.exec call

/-- **A value is brought back by a query of its name in any case and form** if and only if the
handle is an opened one, not a text with its terminator is set and queried by the `A` forms, and
the sizes fit a `DWORD`. -/
theorem bringsBack_iff (wide : Wide) (start : Start) (calls : List Call) (hKey : HKEY)
    {set query : ValueName} (hname : lowerAscii (query.name wide) = lowerAscii (set.name wide))
    (dwType : UInt32) (data : Bytes) (flushed : Bool) :
    BringsBack wide (execAll start.store calls) hKey set query dwType data flushed ↔
      ((execAll start.store calls).openHandles.find? hKey).isSome ∧
        ¬ Doubled set.form query.form dwType data ∧
        SizesFit wide (execAll start.store calls) hKey set dwType data := by
  cases hpath : (execAll start.store calls).openHandles.find? hKey with
  | some path =>
    obtain ⟨key, hkey⟩ := Option.isSome_iff_exists.1
      ((inv_execAll start calls).handles hKey path hpath)
    rw [bringsBack_iff_of_key hpath hkey hname, Option.isSome_some]
    exact (and_iff_right rfl).symm
  | none =>
    refine iff_of_false (fun h => ?_) fun h => Bool.false_ne_true h.1
    have hcode := h.isSet
    rw [setValue_eq, RegSetValueEx, hpath] at hcode
    cases flushed <;> cases hcode

/-- The wide name `V` finds the value `v`. -/
theorem bringsBack_letter :
    BringsBack .utf32 (execAll (Start.mounted {} none).store
        [.createKey HKEY_CURRENT_USER (ascii "k") true]) 0x00010001
        (.A (some (ascii "v"))) (.W (some [0x56])) REG_SZ (ascii "text") true ↔
      ((execAll (Start.mounted {} none).store
        [.createKey HKEY_CURRENT_USER (ascii "k") true]).openHandles.find? 0x00010001).isSome ∧
        ¬ Doubled .A .W REG_SZ (ascii "text") ∧
        SizesFit .utf32 (execAll (Start.mounted {} none).store
          [.createKey HKEY_CURRENT_USER (ascii "k") true]) 0x00010001 (.A (some (ascii "v")))
          REG_SZ (ascii "text") :=
  bringsBack_iff .utf32 (.mounted {} none) [.createKey HKEY_CURRENT_USER (ascii "k") true]
    0x00010001 (by decide +kernel) REG_SZ (ascii "text") true

/-- A query by the `A` form of a text that the `A` form has set has two terminators, and a
predefined handle is refused. -/
theorem terminator_doubled :
    ¬ BringsBack .utf32 (execAll (Start.mounted {} none).store
        [.createKey HKEY_CURRENT_USER (ascii "k") true]) 0x00010001
        (.A (some (ascii "v"))) (.A (some (ascii "v"))) REG_SZ [0x61, 0] true ∧
      ¬ BringsBack .utf32 (Start.mounted {} none).store HKEY_CURRENT_USER
        (.A (some (ascii "v"))) (.A (some (ascii "v"))) REG_BINARY [1] true := by
  refine ⟨fun h => ?_, fun h => ?_⟩
  · have htext := h.text (.inl rfl) [0x61]
      (List.forall_mem_singleton.2 ⟨.inl (by decide), by decide⟩) rfl
    have hsize := congrArg QueryReply.cbData (htext.1 0)
    revert hsize
    decide +kernel
  · have hcode := h.isSet
    revert hcode
    decide +kernel

end Registry

end Swinx
