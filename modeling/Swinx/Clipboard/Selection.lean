import Mathlib

/-!
# Answering selection requests

Another client asks for a selection in one format, or in many: then its property has pairs of a
target and a property, and each is answered on its own.  Both cases share one loop, which begins
with the index -1 for a single target.

The array for the pairs has room for whole pairs, and all atoms of the property are copied into it.
What is written outside of it has no result: `none`.

The requestor's property is what `clipboardReadProperty` reads.  The requests to the server are
events, in their order.

* `answered_iff` — a request is answered if and only if it has no odd number of atoms.
* `odd_overflows` — one atom is copied into an array of no pairs.
-/

namespace Swinx

namespace Selection

abbrev Atom := UInt32

abbrev Bytes := List UInt8

/-- `XCB_NONE` -/
def XCB_NONE : Atom := 0

def XCB_CURRENT_TIME : UInt32 := 0

def XCB_ATOM_ATOM : Atom := 4

def XCB_ATOM_INTEGER : Atom := 19

def CF_TEXT : ℕ := 1

def CF_HDROP : ℕ := 15

/-- The atoms of the connection. -/
structure Atoms where
  CLIPBOARD : Atom
  XdndSelection : Atom
  MULTIPLE : Atom
  TIMESTAMP : Atom
  TARGETS : Atom
  SAVE_TARGETS : Atom
  INCR : Atom
  CLIP_TEMPORARY : Atom
  CLIPF_TEXT : Atom

/-- `FORMATETC` -/
structure Format where
  cfFormat : ℕ
  /-- `tymed == TYMED_HGLOBAL` -/
  hGlobal : Bool

/-- `IDataObject` -/
structure DataObject where
  /-- `EnumFormatEtc`, if it succeeds -/
  formats : Option (List Format)
  /-- The block that `GetData` gives. -/
  getData : ℕ → Option Bytes

/-- `SClipboard` -/
structure Clipboard where
  atoms : Atoms
  clipFormat2Atom : ℕ → Atom
  /-- `xcb_get_maximum_request_length(..) * 4 - 24` -/
  increment : ℕ
  m_ts : UInt32
  /-- The data of the clipboard. -/
  m_doClip : DataObject
  /-- The data of the selection. -/
  m_doSel : Option DataObject

/-- `xcb_selection_request_event_t` -/
structure Request where
  selection : Atom
  target : Atom
  property : Atom
  time : UInt32

/-- The property that a single target is written to; an obsolete client names none. -/
def Request.wanted (req : Request) : Atom :=
  if req.property = XCB_NONE then req.target else req.property

/-- A property of the requestor. -/
structure Property where
  type : Atom
  format : ℕ
  /-- What it has, if its format is 32. -/
  atoms : List Atom

inductive Data
  | words (ws : List UInt32)
  | bytes (bs : Bytes)

/-- A request to the server, about the window of the requestor. -/
inductive Event
  | changeProperty (property type : Atom) (format : ℕ) (data : Data)
  /-- An `INCRTransaction` for a property. -/
  | incr (property : Atom) (first : Bytes)
  | selectionNotify (target property : Atom) (time : UInt32)

structure AtomPair where
  target : Atom
  property : Atom

section Code

variable (c : Clipboard)

/-- `sendTargetsSelection` -/
def sendTargetsSelection (d : DataObject) (property : Atom) : List Event × Atom :=
  let types := ((d.formats.getD []).filter Format.hGlobal).map fun fmt =>
    if fmt.cfFormat = CF_HDROP then c.atoms.CLIPF_TEXT else c.clipFormat2Atom fmt.cfFormat
  ([.changeProperty property XCB_ATOM_ATOM 32
    (.words (types ++ [c.atoms.TARGETS, c.atoms.MULTIPLE, c.atoms.TIMESTAMP,
      c.atoms.SAVE_TARGETS]))], property)

/-- The loop of `sendSelection` over the formats -/
def findData (d : DataObject) (target : Atom) : List Format → Option Bytes → Option Bytes
  | [], hData => hData
  | fmt :: fmts, hData =>
    if fmt.hGlobal ∧ c.clipFormat2Atom fmt.cfFormat = target then d.getData fmt.cfFormat
    else if fmt.hGlobal ∧ fmt.cfFormat = CF_HDROP ∧ target = c.atoms.CLIPF_TEXT then
      findData d target fmts (d.getData CF_TEXT)
    else findData d target fmts hData

/-- `sendSelection` -/
def sendSelection (d : DataObject) (target property : Atom) : List Event × Atom :=
  match findData c d target (d.formats.getD []) none with
  | none => ([], XCB_NONE)
  | some hData =>
    if c.increment < hData.length ∧ property ≠ c.atoms.CLIP_TEMPORARY then
      ([.changeProperty property c.atoms.INCR 32 (.words [UInt32.ofNat c.increment]),
        .incr property (hData.take c.increment)], property)
    else if c.increment < hData.length then ([], XCB_NONE)
    else ([.changeProperty property target 8 (.bytes hData)], property)

/-- What the loop of `handleSelectionRequest` does for a target. -/
def convert (pDo : DataObject) (target property : Atom) : List Event × Atom :=
  if target = XCB_NONE ∨ property = XCB_NONE then ([], XCB_NONE)
  else if target = c.atoms.TIMESTAMP then
    if c.m_ts ≠ XCB_CURRENT_TIME then
      ([.changeProperty property XCB_ATOM_INTEGER 32 (.words [c.m_ts])], property)
    else ([], XCB_NONE)
  else if target = c.atoms.TARGETS then sendTargetsSelection c pDo property
  else sendSelection c pDo target property

/-- The variables of the loop. -/
structure LoopState where
  multi : Option (List AtomPair)
  multi_writeback : Bool
  /-- `event.property` -/
  property : Atom
  events : List Event

/-- The pair with an index. -/
def pairAt (multi : List AtomPair) (imulti : ℕ) : AtomPair :=
  multi.getD imulti ⟨XCB_NONE, XCB_NONE⟩

/-- The loop of `handleSelectionRequest`, for `n` more values of `imulti` -/
def selectionLoop (pDo : DataObject) (req : Request) (nmulti : ℕ) : ℕ → ℤ → LoopState → LoopState
  | 0, _, s => s
  | n + 1, imulti, s =>
    let pair : AtomPair :=
      match s.multi with
      | some multi => pairAt multi imulti.toNat
      | none => ⟨req.target, req.wanted⟩
    let (events, ret) := convert c pDo pair.target pair.property
    let s := { s with events := s.events ++ events }
    if 0 < nmulti then
      let s :=
        if ret = XCB_NONE then
          { s with
            multi := s.multi.map fun multi =>
              multi.set imulti.toNat ⟨pair.target, XCB_NONE⟩
            multi_writeback := true }
        else s
      selectionLoop pDo req nmulti n (imulti + 1) s
    else { s with property := ret }

/-- The atoms of pairs. -/
def flatten (multi : List AtomPair) : List Atom := multi.flatMap fun pair =>
  [pair.target, pair.property]

/-- The pairs of atoms; an odd atom has no pair. -/
def toPairs : List Atom → List AtomPair
  | [] => []
  | [_] => []
  | target :: property :: atoms => ⟨target, property⟩ :: toPairs atoms

/-- The request is refused without a look at its target. -/
def refused (req : Request) : Bool :=
  (req.selection ≠ c.atoms.CLIPBOARD ∧ req.selection ≠ c.atoms.XdndSelection) ∨
    (req.selection = c.atoms.XdndSelection ∧ c.m_doSel.isNone) ∨
    (req.time ≠ XCB_CURRENT_TIME ∧ c.m_ts ≠ XCB_CURRENT_TIME ∧ req.time < c.m_ts)

/-- The data object of a selection. -/
def dataObject (req : Request) : DataObject :=
  if req.selection ≠ c.atoms.CLIPBOARD then c.m_doSel.getD c.m_doClip else c.m_doClip

/-- The end of `handleSelectionRequest` -/
def finish (req : Request) (multi_type : Atom) (nmulti : ℕ) (s : LoopState) : List Event :=
  let writeback :=
    if 0 < nmulti ∧ s.multi_writeback then
      [Event.changeProperty req.property multi_type 32 (.words (flatten (s.multi.getD [])))]
    else []
  s.events ++ writeback ++
    [.selectionNotify req.target (if 0 < nmulti then req.property else s.property) req.time]

/-- `handleSelectionRequest` -/
def handleSelectionRequest (req : Request) (property : Option Property) : Option (List Event) :=
  if refused c req then some [.selectionNotify req.target XCB_NONE req.time]
  else if req.target = c.atoms.MULTIPLE then
    match property with
    | none => some [.selectionNotify req.target XCB_NONE req.time]
    | some p =>
      if req.property = XCB_NONE ∨ p.format ≠ 32 then
        some [.selectionNotify req.target XCB_NONE req.time]
      else
        let nmulti := p.atoms.length / 2
        -- `memcpy` into an array of so many pairs
        if 2 * nmulti < p.atoms.length then none
        else some (finish req p.type nmulti (selectionLoop c (dataObject c req) req nmulti nmulti 0
          ⟨some (toPairs p.atoms), false, XCB_NONE, []⟩))
  else some (finish req XCB_NONE 0
    (selectionLoop c (dataObject c req) req 0 1 (-1) ⟨none, false, XCB_NONE, []⟩))

end Code

/-- A property is written: changed, and perhaps a transfer for it is begun. -/
def Written (property : Atom) (events : List Event) : Prop :=
  ∃ type format data, .changeProperty property type format data ∈ events

/-- Only this property is written, and nothing is notified. -/
def Only (property : Atom) (events : List Event) : Prop :=
  (∀ property' type format data, .changeProperty property' type format data ∈ events →
    property' = property) ∧
  (∀ property' first, .incr property' first ∈ events → property' = property) ∧
  ∀ target property' time, .selectionNotify target property' time ∉ events

/-- What is left of a pair. -/
def AtomPair.Kept (pair pair' : AtomPair) (events : List Event) : Prop :=
  pair'.target = pair.target ∧
    (Written pair.property events → pair'.property = pair.property) ∧
    (¬ Written pair.property events → pair'.property = XCB_NONE)

/-- **Many targets are answered**: in order each pair has its property written, or its entry set to
`None` in what is written back. -/
def AnsweredMultiple (c : Clipboard) (req : Request) (p : Property) (events : List Event) : Prop :=
  ∃ (part : AtomPair → List Event) (pairs' : List AtomPair) (writeback : List Event)
    (property : Atom),
    events = (toPairs p.atoms).flatMap part ++ writeback ++
      [.selectionNotify req.target property req.time] ∧
    (∀ pair ∈ toPairs p.atoms, Only pair.property (part pair) ∧
      part pair = (convert c (dataObject c req) pair.target pair.property).1) ∧
    List.Forall₂ (fun pair pair' => pair.Kept pair' (part pair)) (toPairs p.atoms) pairs' ∧
    ((∀ pair ∈ toPairs p.atoms, Written pair.property (part pair)) → writeback = []) ∧
    ((∃ pair ∈ toPairs p.atoms, ¬ Written pair.property (part pair)) →
      writeback = [.changeProperty req.property p.type 32 (.words (flatten pairs'))])

/-- **A target is answered**: what is notified is the property, if it was written. -/
def AnsweredSingle (req : Request) (events : List Event) : Prop :=
  ∃ part property, events = part ++ [.selectionNotify req.target property req.time] ∧
    Only req.wanted part ∧ (Written req.wanted part → property = req.wanted) ∧
    (¬ Written req.wanted part → property = XCB_NONE)

/-- **A request is answered.** -/
def Answered (c : Clipboard) (req : Request) (property : Option Property) (events : List Event) :
    Prop :=
  if refused c req then events = [.selectionNotify req.target XCB_NONE req.time]
  else if req.target = c.atoms.MULTIPLE then
    (∀ p ∈ property, req.property ≠ XCB_NONE → p.format = 32 →
      AnsweredMultiple c req p events) ∧
    ((∀ p ∈ property, req.property = XCB_NONE ∨ p.format ≠ 32) →
      events = [.selectionNotify req.target XCB_NONE req.time])
  else AnsweredSingle req events

/-! ### Conversions -/

section Conversions

variable {c : Clipboard} {req : Request} {d : DataObject} {target property : Atom}

theorem only_nil : Only property [] := by
  simp [Only]

theorem not_written_nil : ¬ Written property [] := by
  simp [Written]

/-- A conversion has written its property and returns it, or has done nothing and returns `None`. -/
def Converts (property : Atom) (r : List Event × Atom) : Prop :=
  Only property r.1 ∧ (Written property r.1 ∧ r.2 = property ∨ r.1 = [] ∧ r.2 = XCB_NONE)

theorem converts_none : Converts property ([], XCB_NONE) := ⟨only_nil, .inr ⟨rfl, rfl⟩⟩

theorem converts_change (type : Atom) (format : ℕ) (data : Data) :
    Converts property ([.changeProperty property type format data], property) := by
  refine ⟨?_, .inl ⟨⟨type, format, data, by simp⟩, rfl⟩⟩
  simp +contextual [Only]

theorem converts_sendSelection : Converts property (sendSelection c d target property) := by
  unfold sendSelection
  cases findData c d target (d.formats.getD []) none with
  | none => exact converts_none
  | some hData =>
    simp only
    split_ifs
    · refine ⟨?_, .inl ⟨⟨_, _, _, List.mem_cons_self⟩, rfl⟩⟩
      simp +contextual [Only]
    · exact converts_none
    · exact converts_change _ _ _

theorem converts_convert (c : Clipboard) (d : DataObject) (target property : Atom) :
    Converts property (convert c d target property) := by
  unfold convert
  split_ifs
  · exact converts_none
  · exact converts_change _ _ _
  · exact converts_none
  · exact converts_change _ _ _
  · exact converts_sendSelection

theorem convert_eq_none_iff : (convert c d target property).2 = XCB_NONE ↔
    ¬ Written property (convert c d target property).1 := by
  obtain ⟨-, hwritten | hnothing⟩ := converts_convert c d target property
  · refine iff_of_false (fun hnone => ?_) (not_not.2 hwritten.1)
    -- `None` is no property that is written
    have hprop : property = XCB_NONE := hwritten.2.symm.trans hnone
    have hskip : convert c d target property = ([], XCB_NONE) := if_pos (.inr hprop)
    exact not_written_nil (hskip ▸ hwritten.1 : Written property ([], XCB_NONE).1)
  · rw [hnothing.1]
    exact iff_of_true hnothing.2 not_written_nil

/-- What a pair's conversion sends. -/
def part (c : Clipboard) (req : Request) (pair : AtomPair) : List Event :=
  (convert c (dataObject c req) pair.target pair.property).1

/-- What is left of a pair. -/
def left (c : Clipboard) (req : Request) (pair : AtomPair) : AtomPair :=
  if (convert c (dataObject c req) pair.target pair.property).2 = XCB_NONE then
    ⟨pair.target, XCB_NONE⟩
  else pair

/-- The conversion of a pair failed. -/
def failed (c : Clipboard) (req : Request) (pair : AtomPair) : Bool :=
  (convert c (dataObject c req) pair.target pair.property).2 = XCB_NONE

theorem kept_left (pair : AtomPair) : pair.Kept (left c req pair) (part c req pair) := by
  unfold left
  split_ifs with hnone
  · exact ⟨rfl, fun h => absurd h (convert_eq_none_iff.1 hnone), fun _ => rfl⟩
  · exact ⟨rfl, fun _ => rfl, fun h => absurd (convert_eq_none_iff.2 h) hnone⟩

theorem failed_iff {pair : AtomPair} :
    failed c req pair = true ↔ ¬ Written pair.property (part c req pair) :=
  decide_eq_true_iff.trans convert_eq_none_iff

theorem selectionLoop_succ {nmulti n i : ℕ} {multi : List AtomPair} {s : LoopState}
    (hmulti : s.multi = some multi) (hi : i < multi.length) (hpos : 0 < nmulti) :
    selectionLoop c (dataObject c req) req nmulti (n + 1) i s =
      selectionLoop c (dataObject c req) req nmulti n ((i + 1 : ℕ) : ℤ)
        { s with
          multi := some (multi.set i (left c req multi[i]))
          multi_writeback := s.multi_writeback || failed c req multi[i]
          events := s.events ++ part c req multi[i] } := by
  have hpair : pairAt multi i = multi[i] := by
    rw [pairAt, List.getD_eq_getElem?_getD, List.getElem?_eq_getElem hi]
    rfl
  rw [selectionLoop, hmulti]
  simp only [Int.toNat_natCast, hpair, if_pos hpos, Nat.cast_add, Nat.cast_one, left, failed, part]
  split_ifs with hnone
  · simp [hnone]
  · simp [hnone]

/-- **The loop over the pairs** from an index on. -/
theorem selectionLoop_multi (c : Clipboard) (req : Request) {nmulti n i : ℕ}
    {multi : List AtomPair} {s : LoopState} (hmulti : s.multi = some multi)
    (hlen : multi.length = i + n) (hpos : 0 < nmulti) :
    selectionLoop c (dataObject c req) req nmulti n i s =
      { s with
        multi := some (multi.take i ++ (multi.drop i).map (left c req))
        multi_writeback := s.multi_writeback || (multi.drop i).any (failed c req)
        events := s.events ++ (multi.drop i).flatMap (part c req) } := by
  induction n generalizing i multi s with
  | zero =>
    have hend : multi.length ≤ i := hlen.le
    rw [List.take_of_length_le hend, List.drop_of_length_le hend]
    cases s
    simp_all [selectionLoop]
  | succ n ih =>
    have hi : i < multi.length := by omega
    rw [selectionLoop_succ hmulti hi hpos, ih rfl (by rw [List.length_set]; omega)]
    have hdrop : multi.drop i = multi[i] :: multi.drop (i + 1) := List.drop_eq_getElem_cons hi
    have htake : (multi.set i (left c req multi[i])).take (i + 1) =
        multi.take i ++ [left c req multi[i]] := by
      rw [List.take_succ_eq_append_getElem (by rwa [List.length_set]), List.getElem_set_self,
        List.take_set_of_le le_rfl]
    rw [hdrop, List.drop_set_of_lt (Nat.lt_succ_self i), htake]
    simp only [List.append_assoc, List.singleton_append, List.map_cons, List.any_cons,
      List.flatMap_cons, Bool.or_assoc]

end Conversions

/-! ### The answers -/

section Answers

variable {c : Clipboard} {req : Request} {p : Property}

theorem length_toPairs (atoms : List Atom) : (toPairs atoms).length = atoms.length / 2 := by
  induction atoms using toPairs.induct with
  | case1 => rfl
  | case2 atom => simp [toPairs]
  | case3 target property atoms ih =>
    rw [toPairs, List.length_cons, ih, List.length_cons, List.length_cons]
    omega

/-- **The pairs of a property are answered.** -/
theorem answeredMultiple :
    AnsweredMultiple c req p (finish req p.type (p.atoms.length / 2)
      (selectionLoop c (dataObject c req) req (p.atoms.length / 2) (p.atoms.length / 2) 0
        ⟨some (toPairs p.atoms), false, XCB_NONE, []⟩)) := by
  have hlen := length_toPairs p.atoms
  have hloop : selectionLoop c (dataObject c req) req (p.atoms.length / 2) (p.atoms.length / 2) 0
      ⟨some (toPairs p.atoms), false, XCB_NONE, []⟩ =
      ⟨some ((toPairs p.atoms).map (left c req)), (toPairs p.atoms).any (failed c req), XCB_NONE,
        (toPairs p.atoms).flatMap (part c req)⟩ := by
    rcases Nat.eq_zero_or_pos (p.atoms.length / 2) with hzero | hpos
    · have hnil : toPairs p.atoms = [] := List.length_eq_zero_iff.1 (hlen.trans hzero)
      rw [hzero, hnil]
      rfl
    · have hall := selectionLoop_multi c req (i := 0)
        (s := ⟨some (toPairs p.atoms), false, XCB_NONE, []⟩) rfl (by rw [hlen, Nat.zero_add]) hpos
      simpa using hall
  rw [hloop]
  refine ⟨part c req, (toPairs p.atoms).map (left c req), _, _, rfl,
    fun pair _ => ⟨(converts_convert ..).1, rfl⟩, ?_, fun hall => ?_, fun hfail => ?_⟩
  · rw [List.forall₂_map_right_iff]
    exact List.forall₂_same.2 fun pair _ => kept_left pair
  · refine if_neg fun hcond => ?_
    obtain ⟨pair, hmem, hfailed⟩ := List.any_eq_true.1 hcond.2
    exact failed_iff.1 hfailed (hall pair hmem)
  · obtain ⟨pair, hmem, hnot⟩ := hfail
    refine if_pos ⟨?_, List.any_eq_true.2 ⟨pair, hmem, failed_iff.2 hnot⟩⟩
    rw [← hlen]
    exact List.length_pos_of_mem hmem

/-- **A single target is answered.** -/
theorem answeredSingle : AnsweredSingle req (finish req XCB_NONE 0
    (selectionLoop c (dataObject c req) req 0 1 (-1) ⟨none, false, XCB_NONE, []⟩)) := by
  have hconv := converts_convert c (dataObject c req) req.target req.wanted
  refine ⟨(convert c (dataObject c req) req.target req.wanted).1,
    (convert c (dataObject c req) req.target req.wanted).2, ?_, hconv.1, fun hwritten => ?_,
    fun hnot => convert_eq_none_iff.2 hnot⟩
  · simp [finish, selectionLoop]
  · rcases hconv.2 with h | h
    · exact h.2
    · exact absurd (h.1 ▸ hwritten) not_written_nil

end Answers

/-- An accepted request for many targets whose property has an odd number of atoms. -/
def Odd (c : Clipboard) (req : Request) (property : Option Property) : Prop :=
  refused c req = false ∧ req.target = c.atoms.MULTIPLE ∧ req.property ≠ XCB_NONE ∧
    ∃ p ∈ property, p.format = 32 ∧ p.atoms.length % 2 = 1

/-- **A request is answered**, with nothing written outside of the array, if and only if it is none
for many targets with an odd number of atoms. -/
theorem answered_iff (c : Clipboard) (req : Request) (property : Option Property) :
    (∃ events, handleSelectionRequest c req property = some events ∧
      Answered c req property events) ↔ ¬ Odd c req property := by
  unfold handleSelectionRequest Answered Odd
  cases hrefused : refused c req with
  | true => simp
  | false =>
    simp only [Bool.false_eq_true, if_false, true_and]
    by_cases hmulti : req.target = c.atoms.MULTIPLE
    · simp only [if_pos hmulti]
      cases property with
      | none => simp
      | some p =>
        by_cases hwrong : req.property = XCB_NONE ∨ p.format ≠ 32
        · simp only [if_pos hwrong]
          refine iff_of_true ⟨_, rfl, ?_, fun _ => rfl⟩ ?_
          · rintro _ ⟨⟩ hprop hformat
            exact absurd hwrong (not_or.2 ⟨hprop, not_not.2 hformat⟩)
          · rintro ⟨-, hprop, _, ⟨⟩, hformat, -⟩
            exact absurd hwrong (not_or.2 ⟨hprop, not_not.2 hformat⟩)
        · obtain ⟨hprop, hformat⟩ := not_or.1 hwrong
          simp only [if_neg hwrong]
          split_ifs with hodd
          · refine iff_of_false (by simp) (not_not.2 ⟨hmulti, hprop, p, rfl, not_not.1 hformat, ?_⟩)
            omega
          · refine iff_of_true ⟨_, rfl, ?_, fun hall => absurd (hall p rfl) hwrong⟩ ?_
            · rintro _ ⟨⟩ - -
              exact answeredMultiple
            · rintro ⟨-, -, _, ⟨⟩, -, hlen⟩
              omega
    · simp only [if_neg hmulti]
      exact iff_of_true ⟨_, rfl, answeredSingle⟩ fun h => hmulti h.1

/-- A clipboard without data. -/
def emptyClipboard : Clipboard where
  atoms := ⟨100, 101, 102, 103, 104, 105, 106, 107, 108⟩
  clipFormat2Atom _ := 0
  increment := 1000
  m_ts := 1
  m_doClip := ⟨some [], fun _ => none⟩
  m_doSel := none

/-- **One atom is copied into an array of no pairs.** -/
theorem odd_overflows : handleSelectionRequest emptyClipboard ⟨100, 102, 1, 0⟩
    (some ⟨4, 32, [103]⟩) = none := by
  decide

end Selection

end Swinx
