import Mathlib
import Swinx.Data.Bytes
import Swinx.Data.SortedMap

/-!
# The parser of COFF resource objects

`WindResResourceParser` finds the section with the resources and goes through up to four levels of
directories.  All places in the blob come from the blob itself.

A pointer into the blob is its distance from `m_baseAddr`, and pointers do not wrap.  A read of a
byte that is not in the blob, or an exception, ends the program.  The conversion of a string from
UTF-16 is a function of its bytes, which is all that it reads.

* `readBytes` — a read of the blob.
* `isCoffObjectBlob`, `findDataSection`, `parseUnicodeString` — the parts of the parser.
* `parseResourceDirectory`, `parse` — the parser.
* `sizeofResource`, `lockResource` — the bytes of a resource.
* `loadStringW` — the string of an id.
-/

namespace Swinx

namespace Coff

/-! ### The blob -/

/-- How a call ends that does not return normally. -/
inductive Fault
  /-- A byte is read that is not in the blob. -/
  | outOfBlob
  /-- `std::stoul` finds no number. -/
  | invalid_argument
  /-- `std::stoul` finds a number that is no `unsigned long`. -/
  | out_of_range
  /-- A character behind the end of a string is read. -/
  | pastString
  deriving DecidableEq, Repr

/-- `n` bytes of the blob. -/
def readBytes (blob : List UInt8) (off n : ℕ) : Except Fault (List UInt8) :=
  if n = 0 ∨ off + n ≤ blob.length then .ok ((blob.drop off).take n) else .error .outOfBlob

/-- A `uint16_t` -/
def read16 (blob : List UInt8) (off : ℕ) : Except Fault ℕ := (readBytes blob off 2).map Bytes.toNat

/-- A `uint32_t` -/
def read32 (blob : List UInt8) (off : ℕ) : Except Fault ℕ := (readBytes blob off 4).map Bytes.toNat

/-- `sizeof(COFF_FILE_HEADER)` -/
def SIZEOF_FILE_HEADER : ℕ := 20

/-- `sizeof(COFF_SECTION_HEADER)` -/
def SIZEOF_SECTION_HEADER : ℕ := 40

/-- `sizeof(IMAGE_RESOURCE_DIRECTORY)` -/
def SIZEOF_DIRECTORY : ℕ := 16

/-- `sizeof(IMAGE_RESOURCE_DIRECTORY_ENTRY)` -/
def SIZEOF_DIRECTORY_ENTRY : ℕ := 8

/-- `sizeof(IMAGE_RESOURCE_DATA_ENTRY)` -/
def SIZEOF_DATA_ENTRY : ℕ := 16

/-- `is_supported_coff_machine` -/
def isSupportedCoffMachine (machine : ℕ) : Bool :=
  machine == 0x014c || machine == 0x8664 || machine == 0x01c4 || machine == 0xaa64

/-- `is_coff_object_blob` -/
def isCoffObjectBlob (blob : List UInt8) : Except Fault Bool :=
  if blob.length < SIZEOF_FILE_HEADER then .ok false
  else
    (read16 blob 0).bind fun machine =>
      (read16 blob 2).bind fun numberOfSections =>
        if isSupportedCoffMachine machine = false ∨ numberOfSections = 0 ∨ numberOfSections > 96
        then .ok false
        else .ok (decide
          (SIZEOF_FILE_HEADER + SIZEOF_SECTION_HEADER * numberOfSections ≤ blob.length))

/-- `".rsrc"` -/
def RSRC : List UInt8 := [46, 114, 115, 114, 99]

/-- `".rdata"` -/
def RDATA : List UInt8 := [46, 114, 100, 97, 116, 97]

/-- `".data"` -/
def DATA : List UInt8 := [46, 100, 97, 116, 97]

/-- The section may have resources, by its name. -/
def isDataSection (name : List UInt8) : Bool :=
  name.take 5 == RSRC || name.take 6 == RDATA || name.take 5 == DATA

/-- The loop of `FindDataSection`, over `n` sections of which the headers begin at `off`. -/
def findSection (blob : List UInt8) : ℕ → ℕ → Except Fault (Option ℕ)
  | 0, _ => .ok none
  | n + 1, off =>
    (readBytes blob off 8).bind fun name =>
      if isDataSection name then
        (read32 blob (off + 16)).bind fun sizeOfRawData =>
          (read32 blob (off + 20)).bind fun pointerToRawData =>
            if pointerToRawData ≥ blob.length ∨ sizeOfRawData > blob.length - pointerToRawData
            then .ok none
            else .ok (some pointerToRawData)
      else findSection blob n (off + SIZEOF_SECTION_HEADER)

/-- `FindDataSection` -/
def findDataSection (blob : List UInt8) : Except Fault (Option ℕ) :=
  (isCoffObjectBlob blob).bind fun valid =>
    if valid then
      (read16 blob 2).bind fun numberOfSections =>
        findSection blob numberOfSections SIZEOF_FILE_HEADER
    else .ok none

/-- A string of characters, by their codes. -/
abbrev WString := List ℕ

/-- What the parser is given besides the blob. -/
structure Env where
  /-- The conversion of a name from UTF-16. -/
  toName : List UInt8 → WString
  /-- The conversion of a text from UTF-16. -/
  toText : List UInt8 → WString
  /-- `iswspace` -/
  iswspace : ℕ → Bool

/-- `ParseUnicodeString` -/
def parseUnicodeString (env : Env) (blob : List UInt8) (data : ℕ) : Except Fault WString :=
  (read16 blob data).bind fun length => (readBytes blob (data + 2) (2 * length)).map env.toName

/-- A number in decimal digits. -/
def decimal (n : ℕ) : WString := if n = 0 then [48] else ((Nat.digits 10 n).map (48 + ·)).reverse

/-- `swprintf(buf, 32, L"#%u", id)` -/
def idName (id : ℕ) : WString := 35 :: decimal id

def isDigit (c : ℕ) : Bool := decide (48 ≤ c) && decide (c ≤ 57)

/-- The value of decimal digits. -/
def decimalValue (s : WString) : ℕ := s.foldl (fun v c => 10 * v + (c - 48)) 0

/-- `ULONG_MAX` -/
def ULONG_MAX : ℕ := 0xFFFFFFFFFFFFFFFF

/-- A number is read from its digits, after its sign. -/
def digitsToUlong (neg : Bool) (s : WString) : Except Fault ℕ :=
  let ds := s.takeWhile isDigit
  if ds = [] then .error .invalid_argument
  else if decimalValue ds > ULONG_MAX then .error .out_of_range
  else .ok (if neg then (ULONG_MAX + 1 - decimalValue ds) % (ULONG_MAX + 1) else decimalValue ds)

/-- A string up to its `NUL`, without the white space in front. -/
def numeral (env : Env) (s : WString) : WString := (s.takeWhile (· ≠ 0)).dropWhile env.iswspace

/-- `std::stoul` -/
def stoul (env : Env) (s : WString) : Except Fault ℕ :=
  let s := numeral env s
  if s.head? = some 43 then digitsToUlong false s.tail
  else if s.head? = some 45 then digitsToUlong true s.tail
  else digitsToUlong false s

/-- `static_cast<uint16_t>(std::stoul(name.c_str() + 1))` -/
def languageOf (env : Env) (name : WString) : Except Fault ℕ :=
  match name with
  | [] => .error .pastString
  | _ :: s => (stoul env s).map (· % 65536)

/-! ### Resources -/

/-- `ResourceInfo` -/
structure ResourceInfo where
  typeName : WString
  nameName : WString
  languageId : ℕ
  dataOffset : ℕ
  dataSize : ℕ
  codePage : ℕ
  dataPtr : ℕ
  deriving DecidableEq, Repr

/-- `m_resourceMap`, where a name that is not there has no languages. -/
abbrev ResourceMap := WString → WString → SortedMap ℕ ResourceInfo

/-- The members of the parser, with the vector of the resources that were found. -/
structure Parser where
  resources : List ResourceInfo
  resourceMap : ResourceMap
  isValid : Bool

/-- A parser before `Parse`. -/
def newParser : Parser := ⟨[], fun _ _ => SortedMap.empty, false⟩

/-- `m_resourceMap[info.typeName][info.nameName][info.languageId] = info` -/
def ResourceMap.record (m : ResourceMap) (info : ResourceInfo) : ResourceMap :=
  Function.update m info.typeName
    (Function.update (m info.typeName) info.nameName
      ((m info.typeName info.nameName).insert info.languageId info))

/-- The resource is put in the vector and in the map. -/
def Parser.record (p : Parser) (info : ResourceInfo) : Parser :=
  { p with
    resources := p.resources ++ [info]
    resourceMap := p.resourceMap.record info }

/-! ### Directories -/

/-- `IMAGE_RESOURCE_DIRECTORY_ENTRY`, by its two numbers. -/
structure Entry where
  name : ℕ
  offset : ℕ
  deriving DecidableEq, Repr

namespace Entry

def nameIsString (e : Entry) : Bool := decide (0x80000000 ≤ e.name)

def nameOffset (e : Entry) : ℕ := e.name % 0x80000000

def id (e : Entry) : ℕ := e.name % 0x10000

def dataIsDirectory (e : Entry) : Bool := decide (0x80000000 ≤ e.offset)

def offsetToDirectory (e : Entry) : ℕ := e.offset % 0x80000000

def offsetToData (e : Entry) : ℕ := e.offset

end Entry

/-- The entries of an array. -/
def readEntries (blob : List UInt8) (off n : ℕ) : Except Fault (List Entry) :=
  (List.range n).mapM fun i =>
    (read32 blob (off + SIZEOF_DIRECTORY_ENTRY * i)).bind fun name =>
      (read32 blob (off + SIZEOF_DIRECTORY_ENTRY * i + 4)).map fun offset => ⟨name, offset⟩

/-- The entries of the directory, if it is in the blob. -/
def readDirectory (blob : List UInt8) (dirAddr : ℕ) : Except Fault (List Entry) :=
  if dirAddr ≥ blob.length then .ok []
  else if dirAddr + SIZEOF_DIRECTORY > blob.length then .ok []
  else
    (read16 blob (dirAddr + 12)).bind fun numberOfNamedEntries =>
      (read16 blob (dirAddr + 14)).bind fun numberOfIdEntries =>
        let totalEntries := numberOfNamedEntries + numberOfIdEntries
        if dirAddr + SIZEOF_DIRECTORY + SIZEOF_DIRECTORY_ENTRY * totalEntries > blob.length then
          .ok []
        else readEntries blob (dirAddr + SIZEOF_DIRECTORY) totalEntries

/-- The name of an entry. -/
def entryName (env : Env) (blob : List UInt8) (dirBase : ℕ) (e : Entry) : Except Fault WString :=
  if e.nameIsString then parseUnicodeString env blob (dirBase + e.nameOffset)
  else .ok (idName e.id)

/-- The resource of a data entry, under the names that lead to it. -/
def readResource (env : Env) (blob : List UInt8) (dirBase dataEntry : ℕ) (newPath : List WString) :
    Except Fault ResourceInfo :=
  (match newPath[2]? with
    | some name => languageOf env name
    | none => .ok 0).bind fun languageId =>
    (read32 blob dataEntry).bind fun dataRVA =>
      (read32 blob (dataEntry + 4)).bind fun size =>
        (read32 blob (dataEntry + 8)).map fun codePage =>
          { typeName := newPath.getD 0 []
            nameName := newPath.getD 1 []
            languageId := languageId
            dataOffset := dataRVA
            dataSize := size
            codePage := codePage
            dataPtr := dirBase + dataRVA }

/-- The body of the loop of `ParseResourceDirectory`, where `parseSub` goes down. -/
def parseEntry (env : Env) (blob : List UInt8) (dirBase : ℕ) (typePath : List WString)
    (parseSub : ℕ → List WString → Parser → Except Fault Parser) (p : Parser) (e : Entry) :
    Except Fault Parser :=
  (entryName env blob dirBase e).bind fun currentName =>
    let newPath := typePath ++ [currentName]
    if e.dataIsDirectory then parseSub e.offsetToDirectory newPath p
    else
      let dataEntry := dirBase + e.offsetToData
      if dataEntry + SIZEOF_DATA_ENTRY > blob.length then .ok p
      else (readResource env blob dirBase dataEntry newPath).map p.record

/-- `ParseResourceDirectory`, where `levels` more levels are not too deep. -/
def parseResourceDirectory (env : Env) (blob : List UInt8) (dirBase : ℕ) :
    ℕ → ℕ → List WString → Parser → Except Fault Parser
  | 0, _, _, p => .ok p
  | levels + 1, dirOffset, typePath, p =>
    (readDirectory blob (dirBase + dirOffset)).bind fun entries =>
      entries.foldlM
        (parseEntry env blob dirBase typePath (parseResourceDirectory env blob dirBase levels)) p

/-- `MAX_RESOURCE_DEPTH`, the depth of the last level; the first one is 0. -/
def MAX_RESOURCE_DEPTH : ℕ := 3

/-- `Parse` -/
def parse (env : Env) (blob : List UInt8) : Except Fault Parser :=
  (isCoffObjectBlob blob).bind fun valid =>
    if valid = false then .ok newParser
    else
      (findDataSection blob).bind fun section? =>
        match section? with
        | none => .ok newParser
        | some resourceBase =>
          if blob.length < 16 then .ok newParser
          else
            (parseResourceDirectory env blob resourceBase (MAX_RESOURCE_DEPTH + 1) 0 []
              newParser).map fun p => { p with isValid := true }

/-- `SizeofResource` -/
def sizeofResource (hResInfo : Option ResourceInfo) : ℕ :=
  match hResInfo with
  | none => 0
  | some info => info.dataSize

/-- `LockResource` -/
def lockResource (hResData : Option ResourceInfo) : Option ℕ := hResData.map ResourceInfo.dataPtr

/-- What `LoadStringW` returns, and what it writes to the buffer. -/
abbrev Loaded := ℕ × WString

/-- `wcsncpy`: what it writes for `n` characters.  It stops at a `NUL` and fills up with `NUL`s. -/
def wcsncpy (src : WString) (n : ℕ) : WString :=
  let s := (src.takeWhile (· ≠ 0)).take n
  s ++ List.replicate (n - s.length) 0

/-- The string is not there. -/
def notLoaded : Loaded := (0, [0])

/-- The loop of `LoadStringW` over `n` strings, from `offset` on; nothing if the table ends. -/
def skipStrings (blob : List UInt8) (info : ResourceInfo) :
    ℕ → ℕ → Except Fault (Option ℕ)
  | 0, offset => .ok (some offset)
  | n + 1, offset =>
    if offset + 2 > info.dataSize then .ok none
    else
      (read16 blob (info.dataPtr + offset)).bind fun len =>
        skipStrings blob info n ((offset + 2 + 2 * len) % 0x100000000)

/-- The end of `LoadStringW`, from the string at `offset` on. -/
def copyString (env : Env) (blob : List UInt8) (info : ResourceInfo) (cchBufferMax offset : ℕ) :
    Except Fault Loaded :=
  if offset + 2 > info.dataSize then .ok notLoaded
  else
    (read16 blob (info.dataPtr + offset)).bind fun len =>
      let offset := (offset + 2) % 0x100000000
      if offset + 2 * len > info.dataSize then .ok notLoaded
      else
        (readBytes blob (info.dataPtr + offset) (2 * len)).map fun bytes =>
          let stringData := env.toText bytes
          let copyLen := min stringData.length (cchBufferMax - 1)
          (copyLen, wcsncpy stringData copyLen ++ [0])

/-- `LoadStringW`, with a buffer for `cchBufferMax` characters, which is not `NULL`. -/
def loadStringW (env : Env) (blob : List UInt8) (p : Parser) (uID cchBufferMax : ℕ) :
    Except Fault Loaded :=
  if p.isValid = false ∨ cchBufferMax = 0 then .ok (0, [])
  else
    let tableName := decimal (uID / 16 + 1)
    -- the type is `L"#6"`
    match (p.resourceMap [35, 54] tableName).entries with
    | [] => .ok notLoaded
    | (_, info) :: _ =>
      if info.dataPtr ≥ blob.length then .ok notLoaded
      else
        (skipStrings blob info (uID % 16) 0).bind fun offset? =>
          match offset? with
          | none => .ok notLoaded
          | some offset => copyString env blob info cchBufferMax offset

end Coff

end Swinx
