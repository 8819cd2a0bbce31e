import Swinx.LTS.Basic
import Swinx.Registry.WellFormed

/-!
# The registry calls

The calls that change the registry while a database is mounted.  `RegMountDatabase` reads the
database file, and `RegCreateKeyEx`, `RegSetValueEx`, `RegDeleteValue` and `RegDeleteKey` change
the store; each of them then writes the whole store to the file, and what became of that is the
`flushed` of the call.  `RegOpenKeyEx` and `RegCloseKey` only move handles.

Texts are UTF-8, as the entry points pass them on.  While a database is mounted
`loadRegistryFile` does nothing, since the predefined keys exist already; without one it reads the
default file in the same way, once, and the calls that follow are not written to a file.

* `wellFormed_of_reachable` — the store is well-formed after any sequence of calls.
-/

namespace Swinx

namespace Registry

/-! ### Handles and replies -/

/-- `HKEY` -/
abbrev HKEY := UInt32

def HKEY_CLASSES_ROOT : HKEY := 0x80000000

def HKEY_CURRENT_USER : HKEY := 0x80000001

def HKEY_LOCAL_MACHINE : HKEY := 0x80000002

def HKEY_USERS : HKEY := 0x80000003

def HKEY_CURRENT_CONFIG : HKEY := 0x80000005

/-- `predefinedName`; a handle is predefined if it has one. -/
def predefinedName (hKey : HKEY) : Option Bytes :=
  if hKey = HKEY_CLASSES_ROOT then some (ascii "HKEY_CLASSES_ROOT")
  else if hKey = HKEY_CURRENT_USER then some (ascii "HKEY_CURRENT_USER")
  else if hKey = HKEY_LOCAL_MACHINE then some (ascii "HKEY_LOCAL_MACHINE")
  else if hKey = HKEY_USERS then some (ascii "HKEY_USERS")
  else if hKey = HKEY_CURRENT_CONFIG then some (ascii "HKEY_CURRENT_CONFIG")
  else none

/-- The codes that the calls return. -/
inductive Code
  | ERROR_SUCCESS
  | ERROR_FILE_NOT_FOUND
  | ERROR_ACCESS_DENIED
  | ERROR_INVALID_HANDLE
  | ERROR_INVALID_PARAMETER
  deriving DecidableEq, Repr

/-- `*lpdwDisposition` -/
inductive Disposition
  | REG_CREATED_NEW_KEY
  | REG_OPENED_EXISTING_KEY
  deriving DecidableEq, Repr

/-- What a call returns. -/
structure Reply where
  code : Code
  hkResult : Option HKEY := none
  disposition : Option Disposition := none
  deriving DecidableEq, Repr

/-- `RegistryStore` -/
structure RegistryStore where
  keys : Keys := .empty
  /-- The paths of the open handles, in lower case. -/
  openHandles : SortedMap HKEY Bytes := .empty
  nextHandle : HKEY := 0x00010001

/-! ### Paths of handles -/

/-- The path a handle stands for. -/
def basePath (st : RegistryStore) (hKey : HKEY) : Option Bytes :=
  match predefinedName hKey with
  | some name => some name
  | none => st.openHandles.find? hKey

/-- `resolvePath` -/
def resolvePath (st : RegistryStore) (hKey : HKEY) (subKey : Bytes) : Option Bytes :=
  (basePath st hKey).map fun base =>
    lowerAscii <| collapseSeparators <|
      if subKey = [] then base
      else if base.getLast? = some backslash then base ++ subKey
      else base ++ backslash :: subKey

/-- `RegMountDatabase`, with the bytes of the file if it exists. -/
def RegMountDatabase (st : RegistryStore) (file : Option Bytes) : RegistryStore :=
  { st with
    keys := match file with
      | none => ensureRootKeys .empty
      | some bytes => parseIniStream bytes (ensureRootKeys .empty)
    openHandles := .empty }

/-- `loadRegistryFile`, with the bytes of the default file if it exists: the first call of a
process that has no database mounted. -/
def loadRegistryFile (st : RegistryStore) (file : Option Bytes) : RegistryStore :=
  { st with
    keys := match file with
      | none => ensureRootKeys st.keys
      | some bytes => parseIniStream bytes (ensureRootKeys st.keys) }

/-- The code after `flushLocked`. -/
def flushCode (flushed : Bool) : Code := if flushed then .ERROR_SUCCESS else .ERROR_ACCESS_DENIED

/-- `RegOpenKeyEx` -/
def RegOpenKeyEx (st : RegistryStore) (hKey : HKEY) (lpSubKey : Option Bytes) :
    Reply × RegistryStore :=
  match resolvePath st hKey (cstr (lpSubKey.getD [])) with
  | none => (⟨.ERROR_INVALID_HANDLE, none, none⟩, st)
  | some path =>
    if (st.keys.find? path).isNone then (⟨.ERROR_FILE_NOT_FOUND, none, none⟩, st)
    else (⟨.ERROR_SUCCESS, some st.nextHandle, none⟩,
      { st with
        openHandles := st.openHandles.insert st.nextHandle path
        nextHandle := st.nextHandle + 1 })

/-- `RegCloseKey` -/
def RegCloseKey (st : RegistryStore) (hKey : HKEY) : Reply × RegistryStore :=
  if (predefinedName hKey).isSome then (⟨.ERROR_SUCCESS, none, none⟩, st)
  else if (st.openHandles.find? hKey).isNone then (⟨.ERROR_INVALID_HANDLE, none, none⟩, st)
  else (⟨.ERROR_SUCCESS, none, none⟩, { st with openHandles := st.openHandles.erase hKey })

/-- The written form of the parent of a new key. -/
def parentWritten (st : RegistryStore) (hKey : HKEY) (parentPath : Bytes) : Bytes :=
  match predefinedName hKey with
  | some name => name
  | none =>
    match st.keys.find? parentPath with
    | some key => if key.writtenPath ≠ [] then key.writtenPath else upperAscii parentPath
    | none => upperAscii parentPath

/-- `RegCreateKeyEx` -/
def RegCreateKeyEx (st : RegistryStore) (hKey : HKEY) (lpSubKey : Bytes) (flushed : Bool) :
    Reply × RegistryStore :=
  let subKey := cstr lpSubKey
  if subKey = [] then (⟨.ERROR_INVALID_PARAMETER, none, none⟩, st)
  else
    match resolvePath st hKey [] with
    | none => (⟨.ERROR_INVALID_HANDLE, none, none⟩, st)
    | some parentPath =>
      let written := collapseSeparators (parentWritten st hKey parentPath ++ backslash :: subKey)
      let indexPath := lowerAscii (collapseSeparators (parentPath ++ backslash :: subKey))
      let st' : RegistryStore :=
        { keys := ensureKey st.keys indexPath written
          openHandles := st.openHandles.insert st.nextHandle indexPath
          nextHandle := st.nextHandle + 1 }
      if (st.keys.find? indexPath).isSome then
        (⟨.ERROR_SUCCESS, some st.nextHandle, some .REG_OPENED_EXISTING_KEY⟩, st')
      else (⟨flushCode flushed, some st.nextHandle, some .REG_CREATED_NEW_KEY⟩, st')

/-- `RegSetValueEx` -/
def RegSetValueEx (st : RegistryStore) (hKey : HKEY) (lpValueName : Option Bytes)
    (value : RegistryValue) (flushed : Bool) : Reply × RegistryStore :=
  match st.openHandles.find? hKey with
  | none => (⟨.ERROR_INVALID_HANDLE, none, none⟩, st)
  | some path =>
    let name := cstr (lpValueName.getD [])
    match st.keys.find? path with
    | none => (⟨.ERROR_INVALID_HANDLE, none, none⟩, st)
    | some key =>
      (⟨flushCode flushed, none, none⟩,
        { st with
          keys := st.keys.insert path
            { key with
              values := key.values.insert (lowerAscii name) value
              valueNames := key.valueNames.insert (lowerAscii name) name } })

/-- `RegDeleteValue` -/
def RegDeleteValue (st : RegistryStore) (hKey : HKEY) (lpValueName : Option Bytes)
    (flushed : Bool) : Reply × RegistryStore :=
  match lpValueName with
  | none => (⟨.ERROR_INVALID_PARAMETER, none, none⟩, st)
  | some valueName =>
    match st.openHandles.find? hKey with
    | none => (⟨.ERROR_INVALID_HANDLE, none, none⟩, st)
    | some path =>
      match st.keys.find? path with
      | none => (⟨.ERROR_INVALID_HANDLE, none, none⟩, st)
      | some key =>
        let lowered := lowerAscii (cstr valueName)
        if (key.values.find? lowered).isNone then (⟨.ERROR_FILE_NOT_FOUND, none, none⟩, st)
        else
          (⟨flushCode flushed, none, none⟩,
            { st with
              keys := st.keys.insert path
                { key with
                  values := key.values.erase lowered
                  valueNames := key.valueNames.erase lowered } })

/-- Is there a key below `path`? -/
def hasSubKey (keys : Keys) (path : Bytes) : Bool :=
  (keys.lowerBound (path ++ [backslash])).any fun child =>
    child.1.take (path.length + 1) = path ++ [backslash]

/-- `RegDeleteKey` -/
def RegDeleteKey (st : RegistryStore) (hKey : HKEY) (lpSubKey : Option Bytes) (flushed : Bool) :
    Reply × RegistryStore :=
  let subKey := cstr (lpSubKey.getD [])
  if subKey = [] then (⟨.ERROR_INVALID_PARAMETER, none, none⟩, st)
  else
    match resolvePath st hKey subKey with
    | none => (⟨.ERROR_INVALID_HANDLE, none, none⟩, st)
    | some path =>
      if (st.keys.find? path).isNone then (⟨.ERROR_FILE_NOT_FOUND, none, none⟩, st)
      else if hasSubKey st.keys path then (⟨.ERROR_ACCESS_DENIED, none, none⟩, st)
      else
        (⟨flushCode flushed, none, none⟩,
          { st with
            keys := st.keys.erase path
            openHandles := st.openHandles.filter fun h => h.2 ≠ path })

/-- A call with its arguments. -/
inductive Call
  | openKey (hKey : HKEY) (lpSubKey : Option Bytes)
  | closeKey (hKey : HKEY)
  | createKey (hKey : HKEY) (lpSubKey : Bytes) (flushed : Bool)
  | setValue (hKey : HKEY) (lpValueName : Option Bytes) (value : RegistryValue) (flushed : Bool)
  | deleteValue (hKey : HKEY) (lpValueName : Option Bytes) (flushed : Bool)
  | deleteKey (hKey : HKEY) (lpSubKey : Option Bytes) (flushed : Bool)
  deriving DecidableEq, Repr

/-- What a call returns and does. -/
def exec (st : RegistryStore) : Call → Reply × RegistryStore
  | .openKey hKey lpSubKey => RegOpenKeyEx st hKey lpSubKey
  | .closeKey hKey => RegCloseKey st hKey
  | .createKey hKey lpSubKey flushed => RegCreateKeyEx st hKey lpSubKey flushed
  | .setValue hKey lpValueName value flushed => RegSetValueEx st hKey lpValueName value flushed
  | .deleteValue hKey lpValueName flushed => RegDeleteValue st hKey lpValueName flushed
  | .deleteKey hKey lpSubKey flushed => RegDeleteKey st hKey lpSubKey flushed

/-- **The registry as a transition system**: one step is one call. -/
def lts : LTS RegistryStore Call := ⟨fun st call => some (exec st call).2⟩

/-- The store after some calls. -/
def execAll (st : RegistryStore) (calls : List Call) : RegistryStore :=
  calls.foldl (fun st call => (exec st call).2) st

theorem run_eq_execAll (st : RegistryStore) (calls : List Call) :
    lts.run st calls = some (execAll st calls) := by
  induction calls generalizing st with
  | nil => rfl
  | cons call calls ih => exact ih _

/-! ### The store stays well-formed -/

theorem exists_isPath_of_predefinedName {hKey : HKEY} {name : Bytes}
    (h : predefinedName hKey = some name) : IsPath name := by
  have hnames : ∀ name ∈ roots.map upperAscii, IsPath name := by
    intro name hname
    obtain ⟨root, hroot, rfl⟩ := List.mem_map.1 hname
    refine isPath_lowerAscii.1 ?_
    rw [lowerAscii_upperAscii]
    exact isPath_lowerAscii.2 (.of_mem_roots hroot)
  refine hnames name ?_
  unfold predefinedName at h
  split_ifs at h
  all_goals
    cases h
    decide +kernel

/-- **The invariant of the calls.** -/
structure StoreOk (st : RegistryStore) : Prop where
  keys : WellFormed st.keys
  handle : ∀ h path, st.openHandles.find? h = some path → IsPath path ∧ lowerAscii path = path

namespace StoreOk

variable {st : RegistryStore}

theorem isPath_basePath (h : StoreOk st) {hKey : HKEY} {base : Bytes}
    (hbase : basePath st hKey = some base) : IsPath base := by
  unfold basePath at hbase
  split at hbase
  case h_1 name hname =>
    cases hbase
    exact exists_isPath_of_predefinedName hname
  case h_2 => exact (h.handle hKey base hbase).1

theorem resolvePath (h : StoreOk st) {hKey : HKEY} {subKey path : Bytes} (hz : 0 ∉ subKey)
    (hpath : resolvePath st hKey subKey = some path) : IsPath path ∧ lowerAscii path = path := by
  unfold Registry.resolvePath at hpath
  obtain ⟨base, hbase, rfl⟩ := Option.map_eq_some_iff.1 hpath
  have hp := h.isPath_basePath hbase
  refine ⟨isPath_lowerAscii.2 ?_, lowerAscii_lowerAscii _⟩
  split_ifs with hnil hlast
  · exact hp.collapsed.symm ▸ hp
  · exact absurd hlast (collapseSeparators_eq_self_iff.1 hp.collapsed).2
  · exact hp.child hz

theorem parentWritten (h : StoreOk st) {hKey : HKEY} {parentPath : Bytes}
    (hparent : Registry.resolvePath st hKey [] = some parentPath) :
    IsPath (parentWritten st hKey parentPath) ∧
      lowerAscii (Registry.parentWritten st hKey parentPath) = parentPath := by
  obtain ⟨hp, hlower⟩ := h.resolvePath List.not_mem_nil hparent
  have hupper : IsPath (upperAscii parentPath) ∧
      lowerAscii (upperAscii parentPath) = parentPath := by
    rw [lowerAscii_upperAscii, hlower]
    refine ⟨isPath_lowerAscii.1 ?_, rfl⟩
    rwa [lowerAscii_upperAscii, hlower]
  unfold Registry.parentWritten
  split
  case h_1 name hname =>
    have hname' := exists_isPath_of_predefinedName hname
    refine ⟨hname', ?_⟩
    simp only [Registry.resolvePath, basePath, hname, Option.map_some, if_true,
      hname'.collapsed, Option.some.injEq] at hparent
    exact hparent
  case h_2 hname =>
    split
    case h_1 key hkey =>
      split_ifs
      · exact ⟨(h.keys _ _ hkey).isPath_writtenPath, (h.keys _ _ hkey).written⟩
      · exact hupper
    case h_2 => exact hupper

/-- **Mounting a database.** -/
theorem mount (st : RegistryStore) (file : Option Bytes) : StoreOk (RegMountDatabase st file) where
  keys := by
    unfold RegMountDatabase
    cases file with
    | none => exact wellFormed_empty.ensureRootKeys
    | some bytes => exact wellFormed_empty.ensureRootKeys.parseIniStream bytes
  handle h path hfind := by cases hfind

/-- **What a call can do to the store.** -/
inductive Effect (st : RegistryStore) (call : Call) : RegistryStore → Prop
  | nothing : Effect st call st
  | closed (hKey : HKEY) : Effect st call { st with openHandles := st.openHandles.erase hKey }
  | opened {path : Bytes} (hpath : IsPath path ∧ lowerAscii path = path)
      (hkey : (st.keys.find? path).isSome) :
      Effect st call
        { st with
          openHandles := st.openHandles.insert st.nextHandle path
          nextHandle := st.nextHandle + 1 }
  | created {w : Bytes} (hw : IsPath w) :
      Effect st call
        { keys := ensureKey st.keys (lowerAscii w) w
          openHandles := st.openHandles.insert st.nextHandle (lowerAscii w)
          nextHandle := st.nextHandle + 1 }
  | valueSet {path name : Bytes} {key : RegistryKey} (hkey : st.keys.find? path = some key)
      (hz : 0 ∉ name) (value : RegistryValue) :
      Effect st call
        { st with
          keys := st.keys.insert path
            { key with
              values := key.values.insert (lowerAscii name) value
              valueNames := key.valueNames.insert (lowerAscii name) name } }
  | valueDeleted {path : Bytes} {key : RegistryKey} (hkey : st.keys.find? path = some key)
      (n : Bytes) :
      Effect st call
        { st with
          keys := st.keys.insert path
            { key with values := key.values.erase n, valueNames := key.valueNames.erase n } }
  | keyDeleted {hKey : HKEY} {lpSubKey : Option Bytes} {flushed : Bool} {path : Bytes}
      (hcall : call = .deleteKey hKey lpSubKey flushed) (hne : cstr (lpSubKey.getD []) ≠ [])
      (hpath : Registry.resolvePath st hKey (cstr (lpSubKey.getD [])) = some path)
      (hsub : hasSubKey st.keys path = false) :
      Effect st call
        { st with
          keys := st.keys.erase path
          openHandles := st.openHandles.filter fun h => h.2 ≠ path }

theorem effect (h : StoreOk st) (call : Call) : Effect st call (Registry.exec st call).2 := by
  cases call with
  | openKey hKey lpSubKey =>
    simp only [Registry.exec, RegOpenKeyEx]
    split
    case h_1 => exact .nothing
    case h_2 path hpath =>
      split_ifs with hnone
      · exact .nothing
      · exact .opened (h.resolvePath (zero_notMem_cstr _) hpath)
          (by simpa [Option.isSome_iff_ne_none] using hnone)
  | closeKey hKey =>
    simp only [Registry.exec, RegCloseKey]
    split_ifs
    · exact .nothing
    · exact .nothing
    · exact .closed hKey
  | createKey hKey lpSubKey flushed =>
    simp only [Registry.exec, RegCreateKeyEx]
    split_ifs
    · exact .nothing
    · split
      case h_1 => exact .nothing
      case h_2 parentPath hparent =>
        obtain ⟨hwritten, hlower⟩ := h.parentWritten hparent
        have hz := zero_notMem_cstr lpSubKey
        generalize cstr lpSubKey = subKey at *
        generalize Registry.parentWritten st hKey parentPath = w at *
        subst hlower
        rw [lowerAscii_child]
        split_ifs
        · exact .created (hwritten.child hz)
        · exact .created (hwritten.child hz)
  | setValue hKey lpValueName value flushed =>
    simp only [Registry.exec, RegSetValueEx]
    split
    case h_1 => exact .nothing
    case h_2 path hpath =>
      split
      case h_1 => exact .nothing
      case h_2 key hkey => exact .valueSet hkey (zero_notMem_cstr _) value
  | deleteValue hKey lpValueName flushed =>
    simp only [Registry.exec, RegDeleteValue]
    split
    case h_1 => exact .nothing
    case h_2 valueName =>
      split
      case h_1 => exact .nothing
      case h_2 path hpath =>
        split
        case h_1 => exact .nothing
        case h_2 key hkey =>
          split_ifs
          · exact .nothing
          · exact .valueDeleted hkey _
  | deleteKey hKey lpSubKey flushed =>
    simp only [Registry.exec, RegDeleteKey]
    split_ifs with hne
    · exact .nothing
    · split
      case h_1 => exact .nothing
      case h_2 path hpath =>
        split_ifs with hnone hsub
        · exact .nothing
        · exact .nothing
        · exact .keyDeleted rfl hne hpath (by simpa using hsub)

theorem openHandle (h : StoreOk st) {keys : Keys} (hkeys : WellFormed keys) {path : Bytes}
    (hpath : IsPath path ∧ lowerAscii path = path) (h₁ h₂ : HKEY) :
    StoreOk { keys := keys, openHandles := st.openHandles.insert h₁ path, nextHandle := h₂ } := by
  refine ⟨hkeys, fun h' path' hfind => ?_⟩
  simp only [SortedMap.find?_insert] at hfind
  split_ifs at hfind
  · cases hfind
    exact hpath
  · exact h.handle h' path' hfind

/-- **Every call keeps the invariant.** -/
theorem exec (h : StoreOk st) (call : Call) : StoreOk (exec st call).2 := by
  have heffect := h.effect call
  generalize (Registry.exec st call).2 = st' at *
  cases heffect with
  | nothing => exact h
  | closed hKey =>
    exact ⟨h.keys, fun h' path hfind => h.handle h' path (SortedMap.find?_erase.1 hfind).1⟩
  | opened hpath hkey => exact h.openHandle h.keys hpath _ _
  | created hw =>
    exact h.openHandle (h.keys.ensureKey hw)
      ⟨isPath_lowerAscii.2 hw, lowerAscii_lowerAscii _⟩ _ _
  | valueSet hkey hz value => exact ⟨h.keys.insert ((h.keys _ _ hkey).insert hz value), h.handle⟩
  | valueDeleted hkey n => exact ⟨h.keys.insert ((h.keys _ _ hkey).erase n), h.handle⟩
  | keyDeleted hcall hne hpath hsub =>
    exact ⟨h.keys.erase _,
      fun h' path' hfind => h.handle h' path' (SortedMap.find?_filter.1 hfind).1⟩

end StoreOk

/-- **After any calls on any mounted database the store is well-formed.** -/
theorem wellFormed_of_reachable {st₀ st : RegistryStore} {file : Option Bytes}
    (h : lts.Reachable (RegMountDatabase st₀ file) st) : WellFormed st.keys := by
  refine (h.invariant (I := StoreOk) (.mount st₀ file) fun s call s' hs hn => ?_).keys
  cases hn
  exact hs.exec call

end Registry

end Swinx
