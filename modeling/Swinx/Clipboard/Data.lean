import Mathlib
import Swinx.Data.Bytes
import Swinx.Data.Uniconv

/-!
# The data of the clipboard in its own process

`SetClipboardData` keeps blocks by their formats in a list, the wide text as UTF-8.
`GetClipboardData` asks for the atom of a format; the owner of the clipboard looks the atom's format
up again, and a block is allocated for what it finds.

What the source reads outside of a block, or a string of negative length, has no result: `none`.
A block has the length that was asked of `GlobalAlloc`.

* `offers_eq_some_iff` — what the owner has for a format, told from the calls before.
* `roundTrips_iff_fits` — a call brings back what was set if and only if the calls before it fit it.
-/

namespace Swinx

namespace Clipboard

namespace Data

open Uniconv

def CF_TEXT : ℕ := 1

def CF_BITMAP : ℕ := 2

def CF_WAVE : ℕ := 12

def CF_UNICODETEXT : ℕ := 13

def CF_HDROP : ℕ := 15

def CF_MAX : ℕ := 18

/-- `sizeof(DROPFILES)` -/
def sizeofDROPFILES : ℕ := 20

/-- `sizeof(xcb_atom_t)` -/
def sizeofAtom : ℕ := 4

/-- The atoms that the clipboard knows; the X server gives different names different atoms. -/
structure Atoms where
  TARGETS : ℕ
  CLIPF_UTF8 : ℕ
  CLIPF_TEXT : ℕ
  UTF8_STRING : ℕ
  CLIPF_UNICODETEXT : ℕ
  CLIPF_BITMAP : ℕ
  CLIPF_WAVE : ℕ
  CLIPF_HDROP : ℕ
  nodup : [TARGETS, CLIPF_UTF8, CLIPF_TEXT, UTF8_STRING, CLIPF_UNICODETEXT, CLIPF_BITMAP,
    CLIPF_WAVE, CLIPF_HDROP].Nodup

/-- What does not change in a process. -/
structure Config where
  wide : Wide
  atoms : Atoms
  /-- What stands in memory that nothing was written to. -/
  uninit : UInt8
  /-- What the converters find behind the end of their sources. -/
  pastUnit : ℕ
  pastByte : UInt8

/-- `FormatedData` -/
structure FormatedData where
  fmt : ℕ
  data : List UInt8
  deriving DecidableEq, Repr

/-- `SClipboard` and its `m_doClip`. -/
structure State where
  m_bOpen : Bool
  m_lstData : List FormatedData
  deriving DecidableEq, Repr

/-- A block of `GlobalAlloc`, and what is written from its start on. -/
structure Block where
  alloc : ℕ
  written : List UInt8
  deriving DecidableEq, Repr

variable (cfg : Config)

/-- The bytes that were written into the block. -/
def Block.bytes (blk : Block) : List UInt8 := blk.written.take blk.alloc

/-- The `wchar_t` of a block. -/
def Config.units (bs : List UInt8) : List ℕ := Bytes.words cfg.wide.size bs

/-- `wchar_t` as bytes. -/
def Config.wideBytes (us : List ℕ) : List UInt8 := Bytes.ofWords cfg.wide.size us

/-! ## Formats and atoms -/

/-- `textAtoms` -/
def Atoms.textAtoms (atoms : Atoms) : List ℕ :=
  [atoms.CLIPF_UTF8, atoms.UTF8_STRING, atoms.CLIPF_TEXT]

/-- `clipFormat2Atom` -/
def clipFormat2Atom (uFormat : ℕ) : ℕ :=
  if uFormat = CF_TEXT then cfg.atoms.CLIPF_UTF8
  else if uFormat = CF_UNICODETEXT then cfg.atoms.CLIPF_UNICODETEXT
  else if uFormat = CF_BITMAP then cfg.atoms.CLIPF_BITMAP
  else if uFormat = CF_WAVE then cfg.atoms.CLIPF_WAVE
  else if uFormat = CF_HDROP then cfg.atoms.CLIPF_HDROP
  else if CF_MAX < uFormat then uFormat - CF_MAX
  else 0

/-- `atom2ClipFormat` -/
def atom2ClipFormat (atom : ℕ) : ℕ :=
  if atom = cfg.atoms.CLIPF_UNICODETEXT then CF_UNICODETEXT
  else if atom = cfg.atoms.CLIPF_BITMAP then CF_BITMAP
  else if atom = cfg.atoms.CLIPF_WAVE then CF_WAVE
  else if atom = cfg.atoms.CLIPF_HDROP then CF_HDROP
  else if atom ∈ cfg.atoms.textAtoms then CF_TEXT
  else CF_MAX + atom

/-- `(CLIPFORMAT)uFormat` -/
def clipFormat (uFormat : ℕ) : ℕ := uFormat % 65536

/-! ## The list of blocks -/

/-- `SMimeData::set` -/
def set (lst : List FormatedData) (data : FormatedData) : List FormatedData :=
  lst.eraseP (fun it => it.fmt = data.fmt) ++ [data]

/-- The length of what `tostring_filter` converts: up to the first empty string. `start` tells
whether a string starts here. -/
def filterUnits : Bool → List ℕ → Option (List ℕ)
  | _, [] => none
  | start, u :: us =>
    if start ∧ u = 0 then some [] else (filterUnits (u = 0) us).map (u :: ·)

/-- The text of a list of files, as `SMimeData::GetData` converts it. -/
def hdropText (bs : List UInt8) : Option (List UInt8) :=
  if bs.length < sizeofDROPFILES then none
  else
    let pFiles := Bytes.read bs 0 4
    let fWide := Bytes.read bs 16 4
    if fWide ≠ 0 then
      (filterUnits true (cfg.units (bs.drop pFiles))).map (tostring cfg.wide cfg.pastUnit)
    else if bs.length < pFiles then none
    else some (bs.drop pFiles)

/-- The part of a block that `SMimeData::GetData` copies. -/
def trimmed (cfFormat : ℕ) (bs : List UInt8) : Option (List UInt8) :=
  if cfFormat = CF_UNICODETEXT then
    (cfg.units bs).getLast?.map fun wch =>
      if wch = 0 then
        bs.take (((cfg.units bs).takeWhile (· ≠ 0)).length * cfg.wide.size + cfg.wide.size)
      else bs
  else if cfFormat = CF_TEXT then
    bs.getLast?.map fun ch => if ch = 0 then bs.take ((bs.takeWhile (· ≠ 0)).length + 1) else bs
  -- `GlobalAlloc` makes a block of one byte for no bytes.
  else some (if bs = [] then [cfg.uninit] else bs)

/-- `SMimeData::GetData`: the bytes of the medium, `some none` is `DV_E_FORMATETC`. -/
def GetData (cfFormat : ℕ) : List FormatedData → Option (Option (List UInt8))
  | [] => some none
  | it :: lst =>
    if it.fmt = cfFormat then (trimmed cfg cfFormat it.data).map some
    else if it.fmt = CF_HDROP ∧ cfFormat = CF_TEXT then
      -- The medium gets the files as text, and the loop goes on.
      (hdropText cfg it.data).bind fun _ => GetData cfFormat lst
    else GetData cfFormat lst

/-- `_getSelectionFromThis` -/
def getSelectionFromThis (lst : List FormatedData) (fmtAtom : ℕ) : Option (List UInt8) :=
  if fmtAtom = cfg.atoms.TARGETS then
    some <| lst.flatMap fun it => Bytes.ofNat sizeofAtom
      (if it.fmt ≠ CF_HDROP then clipFormat2Atom cfg it.fmt else cfg.atoms.CLIPF_TEXT)
  else (GetData cfg (clipFormat (atom2ClipFormat cfg fmtAtom)) lst).map (·.getD [])

/-- What `setClipboardData` puts into the list: the bytes of wide text become UTF-8. -/
def stored (uFormat : ℕ) (bs : List UInt8) : FormatedData :=
  if uFormat = CF_UNICODETEXT then
    ⟨clipFormat CF_TEXT, tostring cfg.wide cfg.pastUnit (cfg.units bs) ++ [0]⟩
  else ⟨clipFormat uFormat, bs⟩

/-- `setClipboardData` -/
def setClipboardData (s : State) (uFormat : ℕ) (bs : List UInt8) : State :=
  if s.m_bOpen then { s with m_lstData := set s.m_lstData (stored cfg uFormat bs) } else s

/-- The loop of `getClipboardData` over the text atoms. -/
def firstText (lst : List FormatedData) : List ℕ → Option (List UInt8)
  | [] => some []
  | txtAtom :: txtAtoms => do
    let buf ← getSelectionFromThis cfg lst txtAtom
    if buf = [] ∧ txtAtoms ≠ [] then firstText lst txtAtoms else return buf

/-- The `DROPFILES` of `getClipboardData`: `pFiles`, `pt`, `fNC` and `fWide`. -/
def dropFiles : List UInt8 :=
  Bytes.ofNat 4 sizeofDROPFILES ++ Bytes.ofNat 4 0 ++ Bytes.ofNat 4 0 ++
    List.replicate 4 cfg.uninit ++ Bytes.ofNat 4 0

/-- `getClipboardData`: the block, `some none` is `nullptr`. -/
def getClipboardData (s : State) (initFmt : ℕ) : Option (Option Block) := do
  let fmt := if initFmt = CF_UNICODETEXT then CF_TEXT else initFmt
  let found ← getSelectionFromThis cfg s.m_lstData (clipFormat2Atom cfg fmt)
  let bMockHdrop := decide (found = [] ∧ fmt = CF_HDROP)
  let buf ← if bMockHdrop then firstText cfg s.m_lstData cfg.atoms.textAtoms else some found
  if buf = [] then return none
  if initFmt = CF_UNICODETEXT then
    return some ⟨(towstringLength cfg.wide buf + 1) * cfg.wide.size,
      cfg.wideBytes (towstring cfg.wide cfg.pastByte buf)⟩
  -- The sum is the condition of the conditional.
  return some ⟨if buf.length + bMockHdrop.toNat ≠ 0 then sizeofDROPFILES else 0,
    (if bMockHdrop then dropFiles cfg else []) ++ buf⟩

/-- An open clipboard without data. -/
def opened : State := ⟨true, []⟩

/-- The clipboard after calls of `setClipboardData`. -/
def session (sets : List (ℕ × List UInt8)) : State :=
  sets.foldl (fun s p => setClipboardData cfg s p.1 p.2) opened

/-! ## What is got again -/

/-- The formats of text. -/
def IsText (fmt : ℕ) : Prop := fmt = CF_TEXT ∨ fmt = CF_UNICODETEXT

/-- The block that was set last for the format. -/
def lastSet (sets : List (ℕ × List UInt8)) (fmt : ℕ) : Option (List UInt8) :=
  (sets.reverse.find? fun p => p.1 = fmt).map (·.2)

/-- The characters of a valid text without `NUL`. -/
def ValidText (cs : List ℕ) : Prop := ∀ c ∈ cs, Scalar c ∧ c ≠ 0

/-- The bytes of a wide text with its `NUL`. -/
def Config.wideText (cs : List ℕ) : List UInt8 := cfg.wideBytes (cfg.wide.text cs ++ [0])

/-- A text that was set: its bytes up to the first `NUL`. -/
inductive TextSet (p : ℕ × List UInt8) (text : List UInt8) : Prop
  | narrow (hfmt : p.1 = CF_TEXT) (hne : p.2 ≠ []) (htext : text = p.2.takeWhile (· ≠ 0))
  | wide (cs : List ℕ) (hfmt : p.1 = CF_UNICODETEXT) (hcs : ValidText cs)
    (hbytes : cfg.wideText cs <+: p.2) (htext : text = utf8Text cs)

/-- **What was set is got again.** -/
structure RoundTrips (sets : List (ℕ × List UInt8)) (fmt : ℕ) : Prop where
  /-- A block that is not text is the front of the block that is returned. -/
  kept : ¬ IsText fmt → ∀ b, lastSet sets fmt = some b → b ≠ [] →
    ∃ blk, getClipboardData cfg (session cfg sets) fmt = some (some blk) ∧
      b.length ≤ blk.alloc ∧ b <+: blk.bytes
  /-- Wide text is returned up to its `NUL`. -/
  text : fmt = CF_UNICODETEXT → ∀ b, lastSet sets fmt = some b → ∀ cs, ValidText cs →
    cfg.wideText cs <+: b →
    ∃ blk, getClipboardData cfg (session cfg sets) fmt = some (some blk) ∧
      cfg.wideText cs <+: blk.bytes
  /-- Text that alone is there is returned as the files of a `DROPFILES`. -/
  drop : fmt = CF_HDROP → (∀ p ∈ sets, IsText p.1) → ∀ p, sets.getLast? = some p →
    ∀ t, TextSet cfg p t →
    ∃ blk, getClipboardData cfg (session cfg sets) fmt = some (some blk) ∧
      dropFiles cfg ++ t <+: blk.bytes
  /-- Nothing is written outside of the block. -/
  inBlock : ∀ blk, getClipboardData cfg (session cfg sets) fmt = some (some blk) →
    blk.written.length ≤ blk.alloc

/-! ## What the calls have set -/

/-- The 16 bits under which a call keeps its block; wide text is kept as text. -/
def keptAs (uFormat : ℕ) : ℕ := clipFormat (if uFormat = CF_UNICODETEXT then CF_TEXT else uFormat)

/-- The 16 bits by which a format is looked up. -/
def soughtAs (fmt : ℕ) : ℕ := clipFormat (atom2ClipFormat cfg (clipFormat2Atom cfg fmt))

/-- The atom of the format asks for the list of targets. -/
def IsTargets (fmt : ℕ) : Prop := clipFormat2Atom cfg fmt = cfg.atoms.TARGETS

/-- The last call that kept its block under `w`. -/
def lastCall (sets : List (ℕ × List UInt8)) (w : ℕ) : Option (ℕ × List UInt8) :=
  sets.reverse.find? fun p => keptAs p.1 = w

/-- The formats that were set, in the order of their last calls. -/
def formats (sets : List (ℕ × List UInt8)) : List ℕ := (sets.map fun p => keptAs p.1).dedup

/-- The atoms that the owner of the clipboard gives for formats. -/
def targetAtoms (fmts : List ℕ) : List ℕ :=
  fmts.map fun w => if w ≠ CF_HDROP then clipFormat2Atom cfg w else cfg.atoms.CLIPF_TEXT

/-- Files that were set last before the text was can be read. -/
def FilesReadable (sets : List (ℕ × List UInt8)) : Prop :=
  CF_HDROP ∈ (formats sets).takeWhile (· ≠ CF_TEXT) →
    ∀ p, lastCall sets CF_HDROP = some p → hdropText cfg p.2 ≠ none

/-- The block that was set last for `CF_TEXT`, after the wide text. -/
def laterText (sets : List (ℕ × List UInt8)) : Option (List UInt8) :=
  ((sets.reverse.takeWhile fun p => p.1 ≠ CF_UNICODETEXT).find? fun p =>
    clipFormat p.1 = CF_TEXT).map (·.2)

/-- **The calls fit the one that asks.** -/
structure Fits (sets : List (ℕ × List UInt8)) (fmt : ℕ) : Prop where
  /-- The list of targets has room in a `DROPFILES`, and a block that was set for it is the same. -/
  targets : IsTargets cfg fmt →
    (targetAtoms cfg (formats sets)).length * sizeofAtom ≤ sizeofDROPFILES ∧
    ∀ b, lastSet sets fmt = some b → b ≠ [] →
      b <+: (targetAtoms cfg (formats sets)).flatMap (Bytes.ofNat sizeofAtom)
  /-- The last block under the bits by which another format is looked up has room in a
  `DROPFILES`. -/
  small : ¬ IsTargets cfg fmt → fmt ≠ CF_UNICODETEXT →
    (soughtAs cfg fmt = CF_TEXT → FilesReadable cfg sets) →
    ∀ p, lastCall sets (soughtAs cfg fmt) = some p →
    ∀ buf, trimmed cfg (soughtAs cfg fmt) (stored cfg p.1 p.2).data = some buf →
      buf.length ≤ sizeofDROPFILES
  /-- It begins with the last block that was set for the format: it is that one, if the format is
  looked up by its own bits and no other format with the same bits was set after it. -/
  same : ¬ IsTargets cfg fmt → ¬ IsText fmt → ∀ b, lastSet sets fmt = some b → b ≠ [] →
    (soughtAs cfg fmt = CF_TEXT → FilesReadable cfg sets) ∧
    ∃ p, lastCall sets (soughtAs cfg fmt) = some p ∧
    ∃ buf, trimmed cfg (soughtAs cfg fmt) (stored cfg p.1 p.2).data = some buf ∧ b <+: buf
  /-- Files are only asked for when files were set, or no text. -/
  files : fmt = CF_HDROP → lastCall sets CF_HDROP = none →
    ∀ p, lastCall sets CF_TEXT = some p → p.1 ≠ CF_UNICODETEXT ∧ p.2 = []
  /-- A list of files before wide text can be read, and a text that was set after the wide text
  converts to the same. -/
  text : fmt = CF_UNICODETEXT → ∀ b, lastSet sets fmt = some b → ∀ cs, ValidText cs →
    cfg.wideText cs <+: b → FilesReadable cfg sets ∧
      ∀ b', laterText sets = some b' → ∃ buf, trimmed cfg CF_TEXT b' = some buf ∧
        cfg.wideText cs <+: cfg.wideBytes (towstring cfg.wide cfg.pastByte buf)

/-! ## What the owner of the clipboard has -/

/-- The bytes that the owner of the clipboard has for the atom of a format. -/
def State.offers (s : State) (fmt : ℕ) : Option (List UInt8) :=
  getSelectionFromThis cfg s.m_lstData (clipFormat2Atom cfg fmt)

/-- What the owner of the clipboard has fits the call. -/
structure OffersFit (sets : List (ℕ × List UInt8)) (fmt : ℕ) : Prop where
  /-- The data of other formats than wide text has room in a `DROPFILES`. -/
  small : fmt ≠ CF_UNICODETEXT → ∀ buf, (session cfg sets).offers cfg fmt = some buf →
    buf.length ≤ sizeofDROPFILES
  /-- The atom of the format stands for the block that was set. -/
  same : ¬ IsText fmt → ∀ b, lastSet sets fmt = some b → b ≠ [] →
    ∃ buf, (session cfg sets).offers cfg fmt = some buf ∧ b <+: buf
  /-- Text is not asked for as a list of files. -/
  files : fmt = CF_HDROP → (session cfg sets).offers cfg fmt = some [] →
    ∀ buf, (session cfg sets).offers cfg CF_TEXT = some buf → buf = []
  /-- Wide text is got back. -/
  text : fmt = CF_UNICODETEXT → ∀ b, lastSet sets fmt = some b → ∀ cs, ValidText cs →
    cfg.wideText cs <+: b → FilesReadable cfg sets ∧
      ∀ b', laterText sets = some b' → ∃ buf, trimmed cfg CF_TEXT b' = some buf ∧
        cfg.wideText cs <+: cfg.wideBytes (towstring cfg.wide cfg.pastByte buf)

/-- The lists of files that stand before the text can be read. -/
def Readable (lst : List FormatedData) : Prop :=
  ∀ it ∈ lst.takeWhile (fun it => it.fmt ≠ CF_TEXT),
    it.fmt = CF_HDROP → hdropText cfg it.data ≠ none

/-! ## Formats and atoms -/

theorem ne_targets_of_mem_textAtoms {atom : ℕ} (h : atom ∈ cfg.atoms.textAtoms) :
    atom ≠ cfg.atoms.TARGETS := by
  have := cfg.atoms.nodup
  simp only [Atoms.textAtoms, List.mem_cons, List.not_mem_nil, or_false] at h
  simp only [List.nodup_cons, List.mem_cons, not_or] at this
  rcases h with rfl | rfl | rfl <;> tauto

theorem atom2ClipFormat_textAtoms {atom : ℕ} (h : atom ∈ cfg.atoms.textAtoms) :
    atom2ClipFormat cfg atom = CF_TEXT := by
  have hno : atom ≠ cfg.atoms.CLIPF_UNICODETEXT ∧ atom ≠ cfg.atoms.CLIPF_BITMAP ∧
      atom ≠ cfg.atoms.CLIPF_WAVE ∧ atom ≠ cfg.atoms.CLIPF_HDROP := by
    have := cfg.atoms.nodup
    have hmem := h
    simp only [Atoms.textAtoms, List.mem_cons, List.not_mem_nil, or_false] at hmem
    simp only [List.nodup_cons, List.mem_cons, not_or] at this
    rcases hmem with rfl | rfl | rfl <;> tauto
  rw [atom2ClipFormat, if_neg hno.1, if_neg hno.2.1, if_neg hno.2.2.1, if_neg hno.2.2.2, if_pos h]

theorem atom2ClipFormat_hdrop : atom2ClipFormat cfg cfg.atoms.CLIPF_HDROP = CF_HDROP := by
  have := cfg.atoms.nodup
  simp only [List.nodup_cons, List.mem_cons, not_or] at this
  rw [atom2ClipFormat, if_neg (by tauto), if_neg (by tauto), if_neg (by tauto), if_pos rfl]

theorem getSelectionFromThis_textAtoms {atom : ℕ} (h : atom ∈ cfg.atoms.textAtoms)
    (lst : List FormatedData) :
    getSelectionFromThis cfg lst atom = (GetData cfg CF_TEXT lst).map (·.getD []) := by
  rw [getSelectionFromThis, if_neg (ne_targets_of_mem_textAtoms cfg h),
    atom2ClipFormat_textAtoms cfg h]
  rfl

theorem offers_text (s : State) :
    s.offers cfg CF_TEXT = (GetData cfg CF_TEXT s.m_lstData).map (·.getD []) :=
  getSelectionFromThis_textAtoms cfg List.mem_cons_self _

theorem offers_hdrop (s : State) :
    s.offers cfg CF_HDROP = (GetData cfg CF_HDROP s.m_lstData).map (·.getD []) := by
  have hne : cfg.atoms.CLIPF_HDROP ≠ cfg.atoms.TARGETS := by
    have := cfg.atoms.nodup
    simp only [List.nodup_cons, List.mem_cons, not_or] at this
    tauto
  have hatom : clipFormat2Atom cfg CF_HDROP = cfg.atoms.CLIPF_HDROP := rfl
  rw [State.offers, hatom, getSelectionFromThis, if_neg hne, atom2ClipFormat_hdrop]
  rfl

theorem firstText_textAtoms (s : State) :
    firstText cfg s.m_lstData cfg.atoms.textAtoms = s.offers cfg CF_TEXT := by
  have hall : ∀ atom ∈ cfg.atoms.textAtoms,
      getSelectionFromThis cfg s.m_lstData atom = s.offers cfg CF_TEXT := fun atom h => by
    rw [offers_text, getSelectionFromThis_textAtoms cfg h]
  have hloop : ∀ atoms : List ℕ, atoms ≠ [] → (∀ atom ∈ atoms,
      getSelectionFromThis cfg s.m_lstData atom = s.offers cfg CF_TEXT) →
      firstText cfg s.m_lstData atoms = s.offers cfg CF_TEXT := by
    intro atoms hne hatoms
    induction atoms with
    | nil => exact absurd rfl hne
    | cons atom atoms ih =>
      have htail := fun hne => ih hne fun a ha => hatoms a (List.mem_cons_of_mem _ ha)
      rw [firstText, hatoms atom List.mem_cons_self]
      cases hbuf : s.offers cfg CF_TEXT with
      | none => rfl
      | some buf =>
        simp only [Option.bind_eq_bind, Option.bind_some]
        split_ifs with hc
        · rw [htail hc.2, hbuf]
        · rfl
  exact hloop _ (by simp [Atoms.textAtoms]) hall

/-! ## The list of blocks -/

/-- The list has at most one block of a format. -/
def Distinct (lst : List FormatedData) : Prop := (lst.map (·.fmt)).Nodup

theorem Distinct.set {lst : List FormatedData} (h : Distinct lst) (data : FormatedData) :
    Distinct (set lst data) ∧ ∀ w, (Data.set lst data).find? (fun it => it.fmt = w) =
      if data.fmt = w then some data else lst.find? (fun it => it.fmt = w) := by
  induction lst with
  | nil => simp [Data.set, Distinct, List.find?_singleton]
  | cons it lst ih =>
    obtain ⟨hnot, htail⟩ := List.nodup_cons.1 h
    obtain ⟨ihd, ihf⟩ := ih htail
    by_cases hf : it.fmt = data.fmt
    · have hset : Data.set (it :: lst) data = lst ++ [data] := by
        rw [Data.set, List.eraseP_cons_of_pos (by simpa using hf)]
      rw [hset]
      have hfree : ∀ x ∈ lst, x.fmt ≠ data.fmt := fun x hx he =>
        hnot (List.mem_map.2 ⟨x, hx, he.trans hf.symm⟩)
      refine ⟨?_, fun w => ?_⟩
      · rw [Distinct, List.map_append, List.nodup_append]
        refine ⟨htail, List.nodup_singleton _, fun a ha b hb => ?_⟩
        obtain ⟨x, hx, rfl⟩ := List.mem_map.1 ha
        rw [List.map_singleton, List.mem_singleton] at hb
        exact hb ▸ hfree x hx
      · by_cases hw : data.fmt = w
        · have hnone : lst.find? (fun it => it.fmt = w) = none :=
            List.find?_eq_none.2 fun x hx => by simpa [← hw] using hfree x hx
          simp [List.find?_append, hnone, hw]
        · simp [List.find?_append, hf, hw]
    · have hset : Data.set (it :: lst) data = it :: Data.set lst data := by
        rw [Data.set, List.eraseP_cons_of_neg (by simpa using hf)]
        rfl
      rw [hset]
      refine ⟨List.nodup_cons.2 ⟨?_, ihd⟩, fun w => ?_⟩
      · rw [List.mem_map]
        rintro ⟨x, hx, hxf⟩
        rcases List.mem_append.1 hx with hx | hx
        · exact hnot (List.mem_map.2 ⟨x, List.mem_of_mem_eraseP hx, hxf⟩)
        · rw [List.mem_singleton.1 hx] at hxf
          exact hf hxf.symm
      · by_cases hw : it.fmt = w
        · simp [hw, show data.fmt ≠ w from fun hd => hf (hw.trans hd.symm)]
        · simp [hw, ihf w]

theorem dedup_concat (l : List ℕ) (a : ℕ) : (l ++ [a]).dedup = l.dedup.erase a ++ [a] := by
  induction l with
  | nil => simp
  | cons x l ih =>
    rw [List.cons_append, List.dedup_cons, List.dedup_cons, ih]
    by_cases hx : x ∈ l
    · simp [hx]
    · by_cases ha : x = a
      · subst ha
        have hnot : x ∉ l.dedup := by simpa using hx
        simp [hx, List.erase_of_not_mem hnot]
      · simp [hx, ha]

theorem map_fmt_set (lst : List FormatedData) (data : FormatedData) :
    (set lst data).map (·.fmt) = (lst.map (·.fmt)).erase data.fmt ++ [data.fmt] := by
  rw [set, List.map_append, List.map_singleton, List.erase_eq_eraseP', List.eraseP_map]
  rfl

theorem stored_fmt (p : ℕ × List UInt8) : (stored cfg p.1 p.2).fmt = keptAs p.1 := by
  unfold stored keptAs
  split_ifs <;> rfl

/-- **The list after the calls**: what each format was set to last, in that order. -/
theorem session_spec (sets : List (ℕ × List UInt8)) :
    (session cfg sets).m_bOpen = true ∧ Distinct (session cfg sets).m_lstData ∧
      (session cfg sets).m_lstData.map (·.fmt) = formats sets ∧
      ∀ w, (session cfg sets).m_lstData.find? (fun it => it.fmt = w) =
        (lastCall sets w).map fun p => stored cfg p.1 p.2 := by
  induction sets using List.reverseRecOn with
  | nil => simp [session, opened, Distinct, formats, lastCall]
  | append_singleton sets p ih =>
    obtain ⟨hopen, hdist, hfmts, hfind⟩ := ih
    obtain ⟨hd, hf⟩ := hdist.set (stored cfg p.1 p.2)
    have hstep : session cfg (sets ++ [p]) =
        { session cfg sets with
          m_lstData := set (session cfg sets).m_lstData (stored cfg p.1 p.2) } := by
      rw [session, List.foldl_append, List.foldl_cons, List.foldl_nil, ← session,
        setClipboardData, if_pos hopen]
    rw [hstep]
    refine ⟨hopen, hd, ?_, fun w => ?_⟩
    · rw [map_fmt_set, hfmts, stored_fmt, formats, formats, List.map_append, List.map_singleton,
        dedup_concat]
    · rw [hf w, hfind w, lastCall, lastCall, List.reverse_append, List.reverse_singleton,
        List.singleton_append, List.find?_cons, stored_fmt]
      by_cases hw : keptAs p.1 = w <;> simp [hw]

theorem GetData_eq {w : ℕ} {lst : List FormatedData} (h : w = CF_TEXT → Readable cfg lst) :
    GetData cfg w lst = (lst.find? fun it => it.fmt = w).elim (some none)
      fun it => (trimmed cfg w it.data).map some := by
  induction lst with
  | nil => rfl
  | cons it lst ih =>
    by_cases hw : it.fmt = w
    · rw [GetData, if_pos hw, List.find?_cons_of_pos (by simpa using hw)]
      rfl
    · rw [GetData, if_neg hw, List.find?_cons_of_neg (by simpa using hw)]
      have htail : w = CF_TEXT → Readable cfg lst := fun hwt x hx =>
        h hwt x (by rw [List.takeWhile_cons_of_pos (by simpa [← hwt] using hw)]
                    exact List.mem_cons_of_mem _ hx)
      split_ifs with hd
      · have hread := h hd.2 it (by
          rw [List.takeWhile_cons_of_pos (by simpa [← hd.2] using hw)]
          exact List.mem_cons_self) hd.1
        obtain ⟨text, ht⟩ := Option.ne_none_iff_exists'.1 hread
        rw [ht, Option.bind_some, ih htail]
      · exact ih htail

theorem readable_of_GetData {lst : List FormatedData} (h : GetData cfg CF_TEXT lst ≠ none) :
    Readable cfg lst := by
  induction lst with
  | nil => simp [Readable]
  | cons it lst ih =>
    by_cases hw : it.fmt = CF_TEXT
    · simp [Readable, hw]
    · rw [GetData, if_neg hw] at h
      intro x hx hfmt
      rw [List.takeWhile_cons_of_pos (by simpa using hw)] at hx
      by_cases hd : it.fmt = CF_HDROP
      · rw [if_pos ⟨hd, rfl⟩] at h
        obtain ⟨text, ht⟩ : ∃ text, hdropText cfg it.data = some text := by
          cases ht : hdropText cfg it.data with
          | none => simp [ht] at h
          | some text => exact ⟨text, rfl⟩
        rw [ht, Option.bind_some] at h
        rcases List.mem_cons.1 hx with rfl | hx
        · simp [ht]
        · exact ih h x hx hfmt
      · rw [if_neg fun h => hd h.1] at h
        rcases List.mem_cons.1 hx with rfl | hx
        · exact absurd hfmt hd
        · exact ih h x hx hfmt

theorem mem_iff_find? {lst : List FormatedData} (h : Distinct lst) {it : FormatedData} :
    it ∈ lst ↔ lst.find? (fun x => x.fmt = it.fmt) = some it := by
  refine ⟨fun hmem => ?_, List.mem_of_find?_eq_some⟩
  obtain ⟨x, hx⟩ := Option.isSome_iff_exists.1 <|
    List.find?_isSome (p := fun x => x.fmt = it.fmt).2 ⟨it, hmem, by simp⟩
  have hfmt : x.fmt = it.fmt := by simpa using List.find?_some hx
  rw [hx, List.inj_on_of_nodup_map h (List.mem_of_find?_eq_some hx) hmem hfmt]

theorem readable_iff (sets : List (ℕ × List UInt8)) :
    Readable cfg (session cfg sets).m_lstData ↔ FilesReadable cfg sets := by
  obtain ⟨-, hdist, hfmts, hfind⟩ := session_spec cfg sets
  rw [FilesReadable, ← hfmts, List.takeWhile_map, List.mem_map]
  have hdata : ∀ p, lastCall sets CF_HDROP = some p → (stored cfg p.1 p.2).data = p.2 := by
    intro p hp
    have hkept : keptAs p.1 = CF_HDROP := by simpa using List.find?_some hp
    have hne : p.1 ≠ CF_UNICODETEXT := fun h => by
      rw [h] at hkept
      exact absurd hkept (by decide)
    rw [stored, if_neg hne]
  constructor
  · rintro h ⟨it, hit, hfmt⟩ p hp
    have hlast := (mem_iff_find? hdist).1 (List.takeWhile_subset _ hit)
    rw [hfmt, hfind, hp, Option.map_some, Option.some.injEq] at hlast
    rw [← hdata p hp, hlast]
    exact h it hit hfmt
  · intro h it hit hfmt
    have hlast := (mem_iff_find? hdist).1 (List.takeWhile_subset _ hit)
    rw [hfmt, hfind] at hlast
    obtain ⟨p, hp, rfl⟩ := Option.map_eq_some_iff.1 hlast
    rw [hdata p hp]
    exact h ⟨_, hit, hfmt⟩ p hp

/-- **What the owner of the clipboard has for a format after the calls.** -/
theorem offers_eq_some_iff {sets : List (ℕ × List UInt8)} {fmt : ℕ} {buf : List UInt8} :
    (session cfg sets).offers cfg fmt = some buf ↔
      (IsTargets cfg fmt ∧
        (targetAtoms cfg (formats sets)).flatMap (Bytes.ofNat sizeofAtom) = buf) ∨
      (¬ IsTargets cfg fmt ∧ (soughtAs cfg fmt = CF_TEXT → FilesReadable cfg sets) ∧
        ((lastCall sets (soughtAs cfg fmt) = none ∧ [] = buf) ∨
          ∃ p, lastCall sets (soughtAs cfg fmt) = some p ∧
            trimmed cfg (soughtAs cfg fmt) (stored cfg p.1 p.2).data = some buf)) := by
  obtain ⟨-, -, hfmts, hfind⟩ := session_spec cfg sets
  rw [State.offers, getSelectionFromThis]
  by_cases ht : IsTargets cfg fmt
  · rw [if_pos (show clipFormat2Atom cfg fmt = cfg.atoms.TARGETS from ht), ← hfmts, targetAtoms,
      List.map_map, List.flatMap_map]
    simp [ht]
  rw [if_neg (show ¬ clipFormat2Atom cfg fmt = cfg.atoms.TARGETS from ht), ← soughtAs]
  by_cases hread : soughtAs cfg fmt = CF_TEXT → FilesReadable cfg sets
  · rw [GetData_eq cfg fun h => (readable_iff cfg sets).2 (hread h), hfind]
    cases lastCall sets (soughtAs cfg fmt) with
    | none => simpa [ht] using fun _ => hread
    | some p => simpa [ht] using fun _ => hread
  · obtain ⟨htext, hno⟩ := Classical.not_imp.1 hread
    have hnone : GetData cfg (soughtAs cfg fmt) (session cfg sets).m_lstData = none := by
      rw [htext]
      by_contra hget
      exact hno ((readable_iff cfg sets).1 (readable_of_GetData cfg hget))
    rw [hnone]
    simp [ht, hread]

/-! ## Blocks that are trimmed -/

theorem trimmed_text_ne_nil {b buf : List UInt8} (h : trimmed cfg CF_TEXT b = some buf) :
    buf ≠ [] := by
  rw [trimmed, if_neg (by decide), if_pos rfl] at h
  obtain ⟨ch, hch, rfl⟩ := Option.map_eq_some_iff.1 h
  have hne : b ≠ [] := by
    rintro rfl
    simp at hch
  split_ifs
  · simp [List.take_eq_nil_iff, hne]
  · exact hne

theorem trimmed_text_ne_none {b : List UInt8} (h : b ≠ []) : trimmed cfg CF_TEXT b ≠ none := by
  rw [trimmed, if_neg (by decide), if_pos rfl]
  simp [h]

/-- A text with bytes after its `NUL`, the last one `NUL` as well. -/
theorem trimmed_text {text rest : List UInt8} (h : (0 : UInt8) ∉ text) :
    trimmed cfg CF_TEXT (text ++ 0 :: rest ++ [0]) = some (text ++ [0]) := by
  have htake : (text ++ 0 :: rest ++ [0]).takeWhile (· ≠ 0) = text := by
    rw [List.append_assoc, List.takeWhile_append_of_pos fun b hb => ?_]
    · simp
    · simpa using fun h0 : b = 0 => h (h0 ▸ hb)
  rw [trimmed, if_neg (by decide), if_pos rfl, List.getLast?_concat, Option.map_some, htake,
    if_pos rfl]
  simp [List.take_append]

/-! ## Wide text -/

theorem ValidText.scalar_append_zero {cs : List ℕ} (h : ValidText cs) :
    ∀ c ∈ cs ++ [0], Scalar c := scalar_concat_zero fun c hc => (h c hc).1

theorem stored_wide {cs : List ℕ} (hcs : ValidText cs) {b : List UInt8}
    (hb : cfg.wideText cs <+: b) :
    ∃ rest, stored cfg CF_UNICODETEXT b = ⟨CF_TEXT, utf8Text cs ++ 0 :: rest ++ [0]⟩ := by
  obtain ⟨tail, rfl⟩ := hb
  have htext := (wideText_concat_zero cfg.wide cs).symm
  have hscalar := hcs.scalar_append_zero
  have hunits : cfg.units (cfg.wideText cs ++ tail) =
      cfg.wide.text (cs ++ [0]) ++ cfg.units tail := by
    rw [Config.units, Config.wideText, Config.wideBytes, htext,
      Bytes.words_append cfg.wide.size_pos (cfg.wide.text_lt hscalar), Config.units]
  refine ⟨tostring cfg.wide cfg.pastUnit (cfg.units tail), ?_⟩
  rw [stored, if_pos rfl, hunits, tostring_text _ _ hscalar, utf8Text_concat_zero]
  simp [clipFormat, CF_TEXT]

theorem wideText_prefix {cs : List ℕ} (hcs : ValidText cs) :
    cfg.wideText cs <+:
      cfg.wideBytes (towstring cfg.wide cfg.pastByte (utf8Text cs ++ [0])) := by
  rw [← utf8Text_concat_zero, towstring_text _ _ hcs.scalar_append_zero, wideText_concat_zero]
  refine ⟨cfg.wideBytes [0], ?_⟩
  simp [Config.wideText, Config.wideBytes, Bytes.ofWords]

/-! ## `getClipboardData` -/

/-- The block that holds wide text. -/
def wideBlock (buf : List UInt8) : Block :=
  ⟨(towstringLength cfg.wide buf + 1) * cfg.wide.size,
    cfg.wideBytes (towstring cfg.wide cfg.pastByte buf)⟩

theorem getClipboardData_wide (s : State) :
    getClipboardData cfg s CF_UNICODETEXT = (s.offers cfg CF_TEXT).map fun buf =>
      if buf = [] then none else some (wideBlock cfg buf) := by
  rw [getClipboardData]
  simp only [if_pos, State.offers, show CF_TEXT ≠ CF_HDROP by decide, and_false, decide_false,
    Option.bind_eq_bind]
  cases getSelectionFromThis cfg s.m_lstData (clipFormat2Atom cfg CF_TEXT) with
  | none => rfl
  | some buf =>
    simp only [Option.bind_some, Option.map_some, Bool.false_eq_true, if_false]
    split_ifs <;> rfl

theorem getClipboardData_of_offers {s : State} {fmt : ℕ} (hfmt : fmt ≠ CF_UNICODETEXT)
    {buf : List UInt8} (h : s.offers cfg fmt = some buf) (hne : buf ≠ []) :
    getClipboardData cfg s fmt = some (some ⟨sizeofDROPFILES, buf⟩) := by
  rw [State.offers] at h
  have hlen : buf.length ≠ 0 := by simpa using hne
  rw [getClipboardData]
  simp only [if_neg hfmt, h, Option.bind_eq_bind, Option.bind_some, hne, false_and, decide_false,
    Bool.false_eq_true, if_false, Bool.toNat_false, Nat.add_zero, if_pos hlen, List.nil_append]
  rfl

theorem getClipboardData_of_empty {s : State} {fmt : ℕ} (hfmt : fmt ≠ CF_UNICODETEXT)
    (h : s.offers cfg fmt = some []) (hdrop : fmt ≠ CF_HDROP) :
    getClipboardData cfg s fmt = some none := by
  rw [State.offers] at h
  rw [getClipboardData]
  simp only [if_neg hfmt, h, Option.bind_eq_bind, Option.bind_some, hdrop, and_false, decide_false,
    Bool.false_eq_true, if_false]
  rfl

theorem getClipboardData_mock {s : State} (h : s.offers cfg CF_HDROP = some []) :
    getClipboardData cfg s CF_HDROP = (s.offers cfg CF_TEXT).map fun buf =>
      if buf = [] then none else some ⟨sizeofDROPFILES, dropFiles cfg ++ buf⟩ := by
  have hno : CF_HDROP ≠ CF_UNICODETEXT := by decide
  rw [State.offers] at h
  rw [getClipboardData]
  simp only [if_neg hno, h, Option.bind_eq_bind, Option.bind_some, true_and, decide_true, if_true,
    firstText_textAtoms]
  cases s.offers cfg CF_TEXT with
  | none => rfl
  | some buf =>
    simp only [Option.bind_some, Option.map_some, Bool.toNat_true]
    rw [if_pos (show buf.length + 1 ≠ 0 by omega)]
    split_ifs <;> rfl

theorem getClipboardData_none {s : State} {fmt : ℕ} (hfmt : fmt ≠ CF_UNICODETEXT)
    (h : s.offers cfg fmt = none) : getClipboardData cfg s fmt = none := by
  rw [State.offers] at h
  rw [getClipboardData]
  simp only [if_neg hfmt, h, Option.bind_eq_bind, Option.bind_none]

@[simp] theorem length_wideBlock (buf : List UInt8) :
    (wideBlock cfg buf).written.length = (wideBlock cfg buf).alloc := by
  simp [wideBlock, Config.wideBytes]

@[simp] theorem bytes_wideBlock (buf : List UInt8) :
    (wideBlock cfg buf).bytes = cfg.wideBytes (towstring cfg.wide cfg.pastByte buf) := by
  rw [Block.bytes, ← length_wideBlock, List.take_length]
  rfl

theorem stored_fmt_eq_text (p : ℕ × List UInt8) :
    (stored cfg p.1 p.2).fmt = CF_TEXT ↔ p.1 = CF_UNICODETEXT ∨ clipFormat p.1 = CF_TEXT := by
  rw [stored]
  split_ifs with h
  · simp [h, clipFormat, CF_TEXT]
  · simp [h]

/-- The text of the clipboard after wide text was set: a later text, or the stored wide text. -/
theorem find_text {sets : List (ℕ × List UInt8)} {b : List UInt8}
    (h : lastSet sets CF_UNICODETEXT = some b) :
    (session cfg sets).m_lstData.find? (fun it => it.fmt = CF_TEXT) =
      some ((laterText sets).elim (stored cfg CF_UNICODETEXT b) fun b' => ⟨CF_TEXT, b'⟩) := by
  rw [(session_spec cfg sets).2.2.2, lastCall]
  simp only [← stored_fmt cfg]
  unfold lastSet at h
  unfold laterText
  -- The last call comes first.
  generalize sets.reverse = calls at h ⊢
  induction calls with
  | nil => simp at h
  | cons p calls ih =>
    by_cases hp : p.1 = CF_UNICODETEXT
    · have hfmt := (stored_fmt_eq_text cfg p).2 (Or.inl hp)
      rw [List.find?_cons_of_pos (by simpa using hp), Option.map_some, Option.some.injEq] at h
      rw [List.find?_cons_of_pos (by simpa using hfmt),
        List.takeWhile_cons_of_neg (by simpa using hp), ← h, ← hp]
      rfl
    · rw [List.find?_cons_of_neg (by simpa using hp)] at h
      rw [List.takeWhile_cons_of_pos (by simpa using hp)]
      by_cases hc : clipFormat p.1 = CF_TEXT
      · have hfmt := (stored_fmt_eq_text cfg p).2 (Or.inr hc)
        rw [List.find?_cons_of_pos (by simpa using hfmt),
          List.find?_cons_of_pos (by simpa using hc)]
        simp [stored, hp, hc]
      · have hfmt : ¬ (stored cfg p.1 p.2).fmt = CF_TEXT := fun hf =>
          ((stored_fmt_eq_text cfg p).1 hf).elim hp hc
        rw [List.find?_cons_of_neg (by simpa using hfmt),
          List.find?_cons_of_neg (by simpa using hc)]
        exact ih h

theorem GetData_of_wide {sets : List (ℕ × List UInt8)} {b : List UInt8}
    (h : lastSet sets CF_UNICODETEXT = some b)
    (hread : FilesReadable cfg sets) :
    GetData cfg CF_TEXT (session cfg sets).m_lstData =
      (trimmed cfg CF_TEXT
        ((laterText sets).getD (stored cfg CF_UNICODETEXT b).data)).map some := by
  rw [GetData_eq cfg fun _ => (readable_iff cfg sets).2 hread, find_text cfg h]
  cases laterText sets <;> rfl

theorem getClipboardData_wide_eq_some {s : State} {blk : Block} :
    getClipboardData cfg s CF_UNICODETEXT = some (some blk) ↔
      ∃ buf, buf ≠ [] ∧ s.offers cfg CF_TEXT = some buf ∧ blk = wideBlock cfg buf := by
  rw [getClipboardData_wide]
  constructor
  · intro h
    obtain ⟨buf, hbuf, hblk⟩ := Option.map_eq_some_iff.1 h
    split_ifs at hblk with hne
    exact ⟨buf, hne, hbuf, (Option.some.inj hblk).symm⟩
  · rintro ⟨buf, hne, hbuf, rfl⟩
    rw [hbuf, Option.map_some, if_neg hne]

theorem getClipboardData_eq_some {s : State} {fmt : ℕ} (hfmt : fmt ≠ CF_UNICODETEXT)
    {blk : Block} (h : getClipboardData cfg s fmt = some (some blk)) :
    (∃ buf, buf ≠ [] ∧ s.offers cfg fmt = some buf ∧ blk = ⟨sizeofDROPFILES, buf⟩) ∨
      (∃ buf, buf ≠ [] ∧ fmt = CF_HDROP ∧ s.offers cfg CF_HDROP = some [] ∧
        s.offers cfg CF_TEXT = some buf ∧ blk = ⟨sizeofDROPFILES, dropFiles cfg ++ buf⟩) := by
  cases ho : s.offers cfg fmt with
  | none => simp [getClipboardData_none cfg hfmt ho] at h
  | some buf =>
    by_cases hne : buf = []
    · subst hne
      by_cases hdrop : fmt = CF_HDROP
      · subst hdrop
        rw [getClipboardData_mock cfg ho] at h
        obtain ⟨text, htext, hblk⟩ := Option.map_eq_some_iff.1 h
        split_ifs at hblk with ht
        exact Or.inr ⟨text, ht, rfl, ho, htext, (Option.some.inj hblk).symm⟩
      · simp [getClipboardData_of_empty cfg hfmt ho hdrop] at h
    · rw [getClipboardData_of_offers cfg hfmt ho hne] at h
      exact Or.inl ⟨buf, hne, rfl, (Option.some.inj (Option.some.inj h)).symm⟩

/-- Text that alone is there is what the owner has for `CF_TEXT`. -/
theorem offers_of_textSet {sets : List (ℕ × List UInt8)} (hall : ∀ p ∈ sets, IsText p.1)
    {p : ℕ × List UInt8} (hp : sets.getLast? = some p) {t : List UInt8}
    (ht : TextSet cfg p t) :
    (session cfg sets).offers cfg CF_HDROP = some [] ∧
      ∃ buf, buf ≠ [] ∧ (session cfg sets).offers cfg CF_TEXT = some buf := by
  have hfmt : ∀ q ∈ sets, (stored cfg q.1 q.2).fmt = CF_TEXT := fun q hq => by
    rw [stored_fmt_eq_text]
    rcases hall q hq with h | h
    · exact Or.inr (by rw [h]; rfl)
    · exact Or.inl h
  have hdata : (stored cfg p.1 p.2).data ≠ [] := by
    cases ht with
    | narrow h hne _ => simpa [stored, h, CF_TEXT, CF_UNICODETEXT] using hne
    | wide cs h _ _ _ => simp [stored, h]
  have hmem : p ∈ sets := List.mem_of_getLast? hp
  have hfind := (session_spec cfg sets).2.2.2
  have hdrop : (session cfg sets).m_lstData.find? (fun it => it.fmt = CF_HDROP) = none := by
    rw [hfind, lastCall, List.find?_eq_none.2 fun q hq => ?_]
    · rfl
    · simp [← stored_fmt cfg, hfmt q (List.mem_reverse.1 hq), CF_TEXT, CF_HDROP]
  have htext : (session cfg sets).m_lstData.find? (fun it => it.fmt = CF_TEXT) =
      some (stored cfg p.1 p.2) := by
    obtain ⟨init, rfl⟩ := List.getLast?_eq_some_iff.1 hp
    have hp := hfmt p hmem
    rw [stored_fmt] at hp
    rw [hfind, lastCall, List.reverse_append, List.reverse_singleton, List.singleton_append,
      List.find?_cons_of_pos (by simpa using hp)]
    rfl
  have hread : Readable cfg (session cfg sets).m_lstData := fun it hit h => by
    have := List.find?_eq_none.1 hdrop it (List.takeWhile_subset _ hit)
    simp [h] at this
  refine ⟨?_, ?_⟩
  · rw [offers_hdrop, GetData_eq cfg fun h => absurd h (by decide), hdrop]
    rfl
  · obtain ⟨buf, hbuf⟩ := Option.ne_none_iff_exists'.1 (trimmed_text_ne_none cfg hdata)
    refine ⟨buf, trimmed_text_ne_nil cfg hbuf, ?_⟩
    rw [offers_text, GetData_eq cfg fun _ => hread, htext, Option.elim_some, hbuf]
    rfl

theorem OffersFit.wide_kept {sets : List (ℕ × List UInt8)}
    (h : OffersFit cfg sets CF_UNICODETEXT)
    {b : List UInt8} (hb : lastSet sets CF_UNICODETEXT = some b) {cs : List ℕ}
    (hcs : ValidText cs) (hpre : cfg.wideText cs <+: b) :
    ∃ blk, getClipboardData cfg (session cfg sets) CF_UNICODETEXT = some (some blk) ∧
      cfg.wideText cs <+: blk.bytes := by
  obtain ⟨hread, hlater⟩ := h.text rfl b hb cs hcs hpre
  have hget := GetData_of_wide cfg hb hread
  obtain ⟨buf, hbuf, hwide⟩ : ∃ buf,
      trimmed cfg CF_TEXT ((laterText sets).getD (stored cfg CF_UNICODETEXT b).data) = some buf ∧
        cfg.wideText cs <+: cfg.wideBytes (towstring cfg.wide cfg.pastByte buf) := by
    cases hl : laterText sets with
    | some b' => exact hlater b' hl
    | none =>
      obtain ⟨rest, hst⟩ := stored_wide cfg hcs hpre
      have hno : (0 : UInt8) ∉ utf8Text cs := zero_notMem_utf8Text hcs
      refine ⟨_, ?_, wideText_prefix cfg hcs⟩
      rw [Option.getD_none, hst]
      exact trimmed_text cfg hno
  have hoffers : (session cfg sets).offers cfg CF_TEXT = some buf := by
    rw [offers_text, hget, hbuf]
    rfl
  refine ⟨wideBlock cfg buf, (getClipboardData_wide_eq_some cfg).2
    ⟨buf, trimmed_text_ne_nil cfg hbuf, hoffers, rfl⟩, ?_⟩
  rw [bytes_wideBlock]
  exact hwide

theorem RoundTrips.wide_fits {sets : List (ℕ × List UInt8)}
    (h : RoundTrips cfg sets CF_UNICODETEXT) {b : List UInt8}
    (hb : lastSet sets CF_UNICODETEXT = some b) {cs : List ℕ} (hcs : ValidText cs)
    (hpre : cfg.wideText cs <+: b) :
    FilesReadable cfg sets ∧
      ∀ b', laterText sets = some b' → ∃ buf, trimmed cfg CF_TEXT b' = some buf ∧
        cfg.wideText cs <+: cfg.wideBytes (towstring cfg.wide cfg.pastByte buf) := by
  obtain ⟨blk, hblk, hbytes⟩ := h.text rfl b hb cs hcs hpre
  obtain ⟨buf, hne, hbuf, rfl⟩ := (getClipboardData_wide_eq_some cfg).1 hblk
  rw [offers_text] at hbuf
  have hread := (readable_iff cfg sets).1 <| readable_of_GetData cfg fun hnone => by
    simp [hnone] at hbuf
  refine ⟨hread, fun b' hb' => ?_⟩
  rw [GetData_of_wide cfg hb hread, hb', Option.getD_some, Option.map_map] at hbuf
  obtain ⟨buf', hbuf', heq⟩ := Option.map_eq_some_iff.1 hbuf
  rw [bytes_wideBlock] at hbytes
  exact ⟨buf', hbuf', by rwa [show buf' = buf from heq]⟩

theorem roundTrips_iff_offersFit (sets : List (ℕ × List UInt8)) (fmt : ℕ) :
    RoundTrips cfg sets fmt ↔ OffersFit cfg sets fmt := by
  have hsize : ∀ buf : List UInt8, buf ≠ [] →
      ¬ (dropFiles cfg ++ buf).length ≤ sizeofDROPFILES := fun buf hne => by
    have := List.length_pos_iff.2 hne
    simp only [dropFiles, sizeofDROPFILES, List.length_append, Bytes.length_ofNat,
      List.length_replicate]
    omega
  constructor
  · intro h
    have hsmall : fmt ≠ CF_UNICODETEXT → ∀ buf,
        (session cfg sets).offers cfg fmt = some buf → buf.length ≤ sizeofDROPFILES := by
      intro hfmt buf hbuf
      by_cases hne : buf = []
      · simp [hne]
      · exact h.inBlock _ (getClipboardData_of_offers cfg hfmt hbuf hne)
    have hfiles : fmt = CF_HDROP → (session cfg sets).offers cfg fmt = some [] →
        ∀ buf, (session cfg sets).offers cfg CF_TEXT = some buf → buf = [] := by
      rintro rfl ho buf hbuf
      by_contra hne
      refine hsize buf hne (h.inBlock ⟨sizeofDROPFILES, dropFiles cfg ++ buf⟩ ?_)
      rw [getClipboardData_mock cfg ho, hbuf, Option.map_some, if_neg hne]
    refine ⟨hsmall, fun hno b hb hne => ?_, hfiles, ?_⟩
    · obtain ⟨blk, hblk, -, hpre⟩ := h.kept hno b hb hne
      have hfmt : fmt ≠ CF_UNICODETEXT := fun hf => hno (Or.inr hf)
      rcases getClipboardData_eq_some cfg hfmt hblk with ⟨buf, -, hbuf, rfl⟩ |
        ⟨buf, hbne, rfl, ho, hbuf, rfl⟩
      · exact ⟨buf, hbuf, hpre.trans (List.take_prefix _ _)⟩
      · exact absurd (hfiles rfl ho buf hbuf) hbne
    · rintro rfl b hb cs hcs hpre
      exact h.wide_fits cfg hb hcs hpre
  · intro h
    refine ⟨fun hno b hb hne => ?_, ?_, ?_, fun blk hblk => ?_⟩
    · have hfmt : fmt ≠ CF_UNICODETEXT := fun hf => hno (Or.inr hf)
      obtain ⟨buf, hbuf, hpre⟩ := h.same hno b hb hne
      have hlen := h.small hfmt buf hbuf
      have hbne : buf ≠ [] := by
        rintro rfl
        exact hne (List.prefix_nil.1 hpre)
      refine ⟨_, getClipboardData_of_offers cfg hfmt hbuf hbne, hpre.length_le.trans hlen, ?_⟩
      rwa [Block.bytes, List.take_of_length_le hlen]
    · rintro rfl b hb cs hcs hpre
      exact h.wide_kept cfg hb hcs hpre
    · rintro rfl hall p hp t ht
      obtain ⟨ho, buf, hne, hbuf⟩ := offers_of_textSet cfg hall hp ht
      exact absurd (h.files rfl ho buf hbuf) hne
    · by_cases hfmt : fmt = CF_UNICODETEXT
      · subst hfmt
        obtain ⟨buf, -, -, rfl⟩ := (getClipboardData_wide_eq_some cfg).1 hblk
        exact (length_wideBlock cfg buf).le
      · rcases getClipboardData_eq_some cfg hfmt hblk with ⟨buf, -, hbuf, rfl⟩ |
          ⟨buf, hne, rfl, ho, hbuf, rfl⟩
        · exact h.small hfmt buf hbuf
        · exact absurd (h.files rfl ho buf hbuf) hne

theorem length_targets (fmts : List ℕ) :
    ((targetAtoms cfg fmts).flatMap (Bytes.ofNat sizeofAtom)).length =
      (targetAtoms cfg fmts).length * sizeofAtom := by
  rw [List.length_flatMap]
  simp [Bytes.length_ofNat]

theorem soughtAs_text : soughtAs cfg CF_TEXT = CF_TEXT ∧ ¬ IsTargets cfg CF_TEXT := by
  have hmem : clipFormat2Atom cfg CF_TEXT ∈ cfg.atoms.textAtoms := List.mem_cons_self
  refine ⟨?_, ne_targets_of_mem_textAtoms cfg hmem⟩
  rw [soughtAs, atom2ClipFormat_textAtoms cfg hmem]
  rfl

theorem soughtAs_hdrop : soughtAs cfg CF_HDROP = CF_HDROP ∧ ¬ IsTargets cfg CF_HDROP := by
  have hatom : clipFormat2Atom cfg CF_HDROP = cfg.atoms.CLIPF_HDROP := rfl
  refine ⟨?_, ?_⟩
  · rw [soughtAs, hatom, atom2ClipFormat_hdrop]
    rfl
  · have := cfg.atoms.nodup
    simp only [List.nodup_cons, List.mem_cons, not_or] at this
    rw [IsTargets, hatom]
    tauto

/-- Without files there is nothing on the way to the text. -/
theorem filesReadable_of_none {sets : List (ℕ × List UInt8)} (h : lastCall sets CF_HDROP = none) :
    FilesReadable cfg sets := fun _ p hp => by simp [h] at hp

/-- Files that are asked for, of which there are none, are made from the text. -/
theorem files_iff (sets : List (ℕ × List UInt8)) :
    ((session cfg sets).offers cfg CF_HDROP = some [] →
      ∀ buf, (session cfg sets).offers cfg CF_TEXT = some buf → buf = []) ↔
    (lastCall sets CF_HDROP = none →
      ∀ p, lastCall sets CF_TEXT = some p → p.1 ≠ CF_UNICODETEXT ∧ p.2 = []) := by
  obtain ⟨hdrop, hnodrop⟩ := soughtAs_hdrop cfg
  obtain ⟨htext, hnotext⟩ := soughtAs_text cfg
  have hempty : (session cfg sets).offers cfg CF_HDROP = some [] ↔
      lastCall sets CF_HDROP = none := by
    rw [offers_eq_some_iff, hdrop]
    have hne : ∀ b, trimmed cfg CF_HDROP b ≠ some [] := fun b hb => by
      rw [trimmed, if_neg (by decide), if_neg (by decide)] at hb
      split_ifs at hb with hnil
      · simp at hb
      · exact hnil (Option.some.inj hb)
    simp [hnodrop, hne, show CF_HDROP ≠ CF_TEXT by decide]
  rw [hempty]
  refine forall_congr' fun hnone => ?_
  have hread := filesReadable_of_none cfg hnone
  constructor
  · intro h p hp
    by_contra hne
    have hdata : (stored cfg p.1 p.2).data ≠ [] := by
      rw [stored]
      split_ifs with hwide
      · simp
      · exact fun hnil => hne ⟨hwide, hnil⟩
    obtain ⟨buf, hbuf⟩ := Option.ne_none_iff_exists'.1 (trimmed_text_ne_none cfg hdata)
    refine trimmed_text_ne_nil cfg hbuf (h buf ?_)
    rw [offers_eq_some_iff, htext]
    exact Or.inr ⟨hnotext, fun _ => hread, Or.inr ⟨p, hp, hbuf⟩⟩
  · intro h buf hbuf
    rw [offers_eq_some_iff, htext] at hbuf
    rcases hbuf with ⟨ht, -⟩ | ⟨-, -, ⟨-, hnil⟩ | ⟨p, hp, htrim⟩⟩
    · exact absurd ht hnotext
    · exact hnil.symm
    · obtain ⟨hne, hnil⟩ := h p hp
      rw [stored, if_neg hne, hnil, trimmed, if_neg (by decide), if_pos rfl] at htrim
      cases htrim

/-- What the owner has fits the call exactly if the calls before do. -/
theorem offersFit_iff_fits (sets : List (ℕ × List UInt8)) (fmt : ℕ) :
    OffersFit cfg sets fmt ↔ Fits cfg sets fmt := by
  constructor
  · intro h
    refine ⟨fun ht => ⟨?_, fun b hb hne => ?_⟩, fun ht hfmt hread p hp buf hbuf => ?_,
      fun ht hno b hb hne => ?_, ?_, h.text⟩
    · have hfmt : fmt ≠ CF_UNICODETEXT := by
        rintro rfl
        have := cfg.atoms.nodup
        simp only [List.nodup_cons, List.mem_cons, not_or] at this
        exact this.1.2.2.2.1 ht.symm
      rw [← length_targets]
      exact h.small hfmt _ ((offers_eq_some_iff cfg).2 (Or.inl ⟨ht, rfl⟩))
    · have hno : ¬ IsText fmt := by
        rintro (rfl | rfl)
        · exact (soughtAs_text cfg).2 ht
        · have := cfg.atoms.nodup
          simp only [List.nodup_cons, List.mem_cons, not_or] at this
          exact this.1.2.2.2.1 ht.symm
      obtain ⟨buf, hbuf, hpre⟩ := h.same hno b hb hne
      rcases (offers_eq_some_iff cfg).1 hbuf with ⟨-, rfl⟩ | ⟨hnt, -⟩
      · exact hpre
      · exact absurd ht hnt
    · exact h.small hfmt buf ((offers_eq_some_iff cfg).2 (Or.inr ⟨ht, hread, Or.inr ⟨p, hp, hbuf⟩⟩))
    · obtain ⟨buf, hbuf, hpre⟩ := h.same hno b hb hne
      rcases (offers_eq_some_iff cfg).1 hbuf with ⟨htr, -⟩ | ⟨-, hread, ⟨-, rfl⟩ | ⟨p, hp, htrim⟩⟩
      · exact absurd htr ht
      · exact absurd (List.prefix_nil.1 hpre) hne
      · exact ⟨hread, p, hp, buf, htrim, hpre⟩
    · rintro rfl
      exact (files_iff cfg sets).1 (h.files rfl)
  · intro h
    refine ⟨fun hfmt buf hbuf => ?_, fun hno b hb hne => ?_, ?_, h.text⟩
    · rcases (offers_eq_some_iff cfg).1 hbuf with ⟨ht, rfl⟩ | ⟨ht, hread, ⟨-, rfl⟩ | ⟨p, hp, htrim⟩⟩
      · rw [length_targets]
        exact (h.targets ht).1
      · exact Nat.zero_le _
      · exact h.small ht hfmt hread p hp buf htrim
    · by_cases ht : IsTargets cfg fmt
      · exact ⟨_, (offers_eq_some_iff cfg).2 (Or.inl ⟨ht, rfl⟩), (h.targets ht).2 b hb hne⟩
      · obtain ⟨hread, p, hp, buf, htrim, hpre⟩ := h.same ht hno b hb hne
        exact ⟨buf, (offers_eq_some_iff cfg).2 (Or.inr ⟨ht, hread, Or.inr ⟨p, hp, htrim⟩⟩), hpre⟩
    · rintro rfl
      exact (files_iff cfg sets).2 (h.files rfl)

/-- **A call brings back what was set if and only if the calls before it fit it.** -/
theorem roundTrips_iff_fits (sets : List (ℕ × List UInt8)) (fmt : ℕ) :
    RoundTrips cfg sets fmt ↔ Fits cfg sets fmt :=
  (roundTrips_iff_offersFit cfg sets fmt).trans (offersFit_iff_fits cfg sets fmt)

/-- A process with wide characters of four bytes. -/
def utf32Config : Config where
  wide := .utf32
  atoms := ⟨301, 302, 303, 304, 305, 306, 307, 308, by decide⟩
  uninit := 0
  pastUnit := 0
  pastByte := 0

/-- A bitmap of more than 20 bytes is written outside of the block that is returned for it. -/
theorem bitmap_overruns :
    ¬ RoundTrips utf32Config [(CF_BITMAP, List.replicate 21 7)] CF_BITMAP := by
  intro h
  have hget : getClipboardData utf32Config
      (session utf32Config [(CF_BITMAP, List.replicate 21 7)]) CF_BITMAP =
      some (some ⟨sizeofDROPFILES, List.replicate 21 7⟩) := by decide
  exact absurd (h.inBlock _ hget) (by decide)

end Data

end Clipboard

end Swinx
