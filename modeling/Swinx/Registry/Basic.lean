import Swinx.Data.SortedMap
import Swinx.Registry.Path

/-!
# The registry store and its text

The registry is a flat map from the path of a key, in lower case, to the key.  A key remembers its
path as it was written, and maps the names of its values, in lower case, to the values and to the
names as they were written.

`serializeStore` writes a mounted database to its file, and `parseIniStream` reads the file when
the database is mounted again.  A key is a section, a value a line `"name"=text`; the text is a
quoted string, `dword:` and eight digits, or `hex(type):` and the bytes.
-/

namespace Swinx

namespace Registry

abbrev newline : UInt8 := 10
abbrev space : UInt8 := 32
abbrev quote : UInt8 := 34
abbrev closeParen : UInt8 := 41
abbrev comma : UInt8 := 44
abbrev equals : UInt8 := 61
abbrev openBracket : UInt8 := 91
abbrev closeBracket : UInt8 := 93

/-! ### Data -/

def REG_SZ : UInt32 := 1

def REG_BINARY : UInt32 := 3

def REG_DWORD : UInt32 := 4

/-- `RegistryValue` -/
structure RegistryValue where
  type : UInt32
  data : Bytes
  deriving DecidableEq, Repr

/-- `RegistryKey` -/
structure RegistryKey where
  /-- The last component of the path as it was written. -/
  displayName : Bytes := []
  /-- The path as it was written. -/
  writtenPath : Bytes := []
  /-- The values by their names in lower case. -/
  values : SortedMap Bytes RegistryValue := .empty
  /-- The names as they were written, by the names in lower case. -/
  valueNames : SortedMap Bytes Bytes := .empty

/-- The keys by their paths in lower case. -/
abbrev Keys := SortedMap Bytes RegistryKey

/-- Create the key `part`, unless it exists or is empty. -/
def ensureOne (keys : Keys) (part partWritten : Bytes) : Keys :=
  if part ≠ [] ∧ (keys.find? part).isNone then
    keys.insert part
      { displayName := partWritten.rtakeWhile (· ≠ backslash), writtenPath := partWritten }
  else keys

/-- The loop of `ensureKey`, over the bytes of both spellings of the path. -/
def ensureKeyAux (keys : Keys) (part partWritten : Bytes) : List (UInt8 × UInt8) → Keys
  | [] => ensureOne keys part partWritten
  | (c, w) :: rest =>
    ensureKeyAux (if c = backslash then ensureOne keys part partWritten else keys)
      (part ++ [c]) (partWritten ++ [w]) rest

/-- `ensureKey`: the key and its parents exist. -/
def ensureKey (keys : Keys) (path asWritten : Bytes) : Keys :=
  ensureKeyAux keys [] [] (path.zip asWritten)

/-- `ensureRootKeys` -/
def ensureRootKeys (keys : Keys) : Keys :=
  roots.foldl (fun keys root =>
    if (keys.find? root).isNone then
      keys.insert root { displayName := upperAscii root, writtenPath := root }
    else keys) keys

/-! ### Reading a value -/

/-- The loop of `parseHex`; every round reads at least one byte of the text. -/
def parseHexAux : ℕ → Bytes → Bytes
  | 0, _ => []
  | fuel + 1, text =>
    match text.dropWhile fun c => c = comma ∨ c = space with
    | [] => []
    | c :: p =>
      match strtoul 16 (c :: p) with
      | none => []
      | some (v, rest) => v.toUInt8 :: parseHexAux fuel rest

/-- `parseHex` -/
def parseHex (text : Bytes) : Bytes := parseHexAux text.length text

/-- The first bytes of a text are this word, in upper or lower case. -/
def startsWith (word raw : Bytes) : Bool :=
  word.length ≤ raw.length ∧ lowerAscii (raw.take word.length) = word

/-- The value of `strtoul`, which is `0` where there is no number. -/
def strtoulValue (base : ℕ) (s : Bytes) : ℕ := ((strtoul base s).map Prod.fst).getD 0

/-- The little-endian bytes of a number. -/
def dwordBytes (d : UInt32) : Bytes :=
  [d.toUInt8, (d >>> 8).toUInt8, (d >>> 16).toUInt8, (d >>> 24).toUInt8]

/-- The value that `storeValue` makes of a text. -/
def valueOf (raw : Bytes) : RegistryValue :=
  if startsWith (ascii "dword:") raw then
    ⟨REG_DWORD, dwordBytes (strtoulValue 16 (raw.drop 6)).toUInt32⟩
  else if startsWith (ascii "hex(") raw then
    match breakOn closeParen (raw.drop 4) with
    | some (_ :: _, 58 :: bytes) =>
      -- `hex(NN):`
      ⟨(strtoulValue 10 (raw.drop 4)).toUInt32, parseHex bytes⟩
    | _ => ⟨REG_BINARY, parseHex (raw.drop 4)⟩
  else if startsWith (ascii "hex:") raw then ⟨REG_BINARY, parseHex (raw.drop 4)⟩
  else ⟨REG_SZ, raw⟩

/-- `storeValue` -/
def storeValue (keys : Keys) (keyPath valueName text : Bytes) : Keys :=
  let key := (keys.find? keyPath).getD {}
  keys.insert keyPath
    { key with
      values := key.values.insert (lowerAscii valueName) (valueOf text)
      valueNames := key.valueNames.insert (lowerAscii valueName) valueName }

/-! ### Reading a file -/

/-- Blanks for `trim`. -/
def isBlank (c : UInt8) : Bool := c = 32 ∨ c = 9 ∨ c = 13 ∨ c = 10

/-- `trim` -/
def trim (s : Bytes) : Bytes := (s.dropWhile isBlank).rdropWhile isBlank

/-- `unquote` -/
def unquote (s : Bytes) : Bytes :=
  if 2 ≤ s.length ∧ s.head? = some quote ∧ s.getLast? = some quote then s.tail.dropLast else s

/-- `resolvePathRawSection`: the index form and the written form of a section name. -/
def resolvePathRawSection (sectionName : Bytes) : Option (Bytes × Bytes) :=
  if lowerAscii (rootOf sectionName) ∈ roots then
    some (lowerAscii (collapseSeparators sectionName), collapseSeparators sectionName)
  else none

/-- The keys read so far, and the current key. -/
abbrev Parsed := Keys × Bytes

/-- One line of `parseIniStream`. -/
def parseLine (st : Parsed) (line : Bytes) : Parsed :=
  match trim (cstr line) with
  | [] => st
  | c :: text =>
    if c = 35 ∨ c = 59 then st
    else if c = openBracket then
      match breakOn closeBracket text with
      | none => st
      | some (sectionName, _) =>
        match resolvePathRawSection sectionName with
        | none => (st.1, [])
        | some (path, asWritten) => (ensureKey st.1 path asWritten, path)
    else if st.2 = [] then st
    else
      match breakOn equals (c :: text) with
      | none => st
      | some (name, value) =>
        let name := if trim name = ascii "@" then [] else unquote (trim name)
        (storeValue st.1 st.2 name (unquote (trim value)), st.2)

/-- `parseIniStream` of a file with these bytes; the buffer has 2048 bytes. -/
def parseIniStream (file : Bytes) (keys : Keys) : Keys :=
  ((readLines 2047 file).foldl parseLine (keys, [])).1

/-! ### Writing a file -/

/-- The number in four little-endian bytes. -/
def dwordOf (data : Bytes) : ℕ :=
  data.foldr (fun b n => b.toNat + 256 * n) 0

/-- The text of a `REG_SZ` value: one terminating NUL is stripped. -/
def textOf (data : Bytes) : Bytes := if data.getLast? = some 0 then data.dropLast else data

/-- Can a text be written between quotes? -/
def isSafeText (text : Bytes) : Bool :=
  text ≠ [] ∧ 0 ∉ text ∧ text.head? ≠ some space ∧ text.getLast? ≠ some space ∧
    quote ∉ text ∧ newline ∉ text ∧ 13 ∉ text

/-- The bytes of a value in hexadecimal, with commas. -/
def hexText : Bytes → Bytes
  | [] => []
  | [b] => formatHex 2 b.toNat
  | b :: rest => formatHex 2 b.toNat ++ comma :: hexText rest

/-- `serializeValueText`; `none` where `*ok` becomes false. -/
def serializeValueText (value : RegistryValue) : Option Bytes :=
  if value.type = REG_DWORD then
    if value.data.length = 4 then some (ascii "dword:" ++ formatHex 8 (dwordOf value.data))
    else none
  else if value.type = REG_SZ ∧ isSafeText (textOf value.data) then
    some (quote :: textOf value.data ++ [quote])
  else
    some (ascii "hex(" ++ formatDec 9 value.type.toNat ++ ascii "):" ++
      (if value.data = [] then ascii "00" else hexText value.data))

/-- `sectionName` -/
def sectionName (path : Bytes) (key : RegistryKey) : Bytes :=
  if key.writtenPath ≠ [] then key.writtenPath else upperAscii path

/-- The name in front of `=`. -/
def nameText (name : Bytes) : Bytes :=
  if name = [] then ascii "@" else quote :: name ++ [quote]

/-- The line of a value, without its newline. -/
def valueLine (name text : Bytes) : Bytes := nameText name ++ equals :: text

/-- The lines of the values of a key. -/
def valueLines (key : RegistryKey) : List Bytes :=
  key.values.entries.filterMap fun v =>
    (serializeValueText v.2).map (valueLine ((key.valueNames.find? v.1).getD []))

/-- The lines of a key; a key without values has none. -/
def keyLines (path : Bytes) (key : RegistryKey) : List Bytes :=
  if key.values.entries = [] then []
  else (openBracket :: sectionName path key ++ [closeBracket]) :: valueLines key

/-- The lines of `serializeStore`. -/
def storeLines (keys : Keys) : List Bytes :=
  ascii "# swinx registry database" :: keys.entries.flatMap fun e => keyLines e.1 e.2

/-- `serializeStore` -/
def serializeStore (keys : Keys) : Bytes := (storeLines keys).flatMap fun line => line ++ [newline]

end Registry

end Swinx
