import Mathlib
import Swinx.Data.Bytes
import Swinx.LTS.Basic

/-!
# Selections that are sent in parts

The owner of the clipboard puts the data of a request into a property of the requestor's window.
Data that does not fit into one request of the X protocol is sent in parts: the property first holds
the type `INCR`, and whenever the requestor deletes the property, an `INCRTransaction` puts the next
part there, and at the end nothing.  The transactions are in a map by their windows.

The X server is a map of the properties of the windows.  A property that is set or deleted is
notified, in order, to the requestor, and to the owner if it has selected the events of the window.

* `clipboardReadProperty_eq` — a property is read as it is, in however many pieces.
* `sound_of_orderly` — a run of orderly requests is sound in all its states.
-/

namespace Swinx

namespace Clipboard

namespace Incr

open Function (update update_of_ne update_self)

/-- `xcb_window_t` -/
abbrev Window := UInt32

/-- `xcb_atom_t` -/
abbrev Atom := UInt32

/-- What a property holds. -/
inductive Value
  /-- Of type `INCR`: the number of bytes that will come. -/
  | incr (bytes : ℕ)
  /-- Of the type of the target. -/
  | data (bytes : List UInt8)
  deriving DecidableEq, Repr

/-- The bytes of a property. -/
def Value.bytes : Value → List UInt8
  | .incr bytes => Bytes.ofNat 4 bytes
  | .data bytes => bytes

/-- `XCB_PROPERTY_NEW_VALUE` and `XCB_PROPERTY_DELETE` -/
inductive PropertyState
  | newValue
  | delete
  deriving DecidableEq, Repr

/-- An event of a window that its requestor gets. -/
inductive Event
  /-- `XCB_SELECTION_NOTIFY`; `none` is `XCB_NONE`. -/
  | selectionNotify (property : Option Atom)
  | propertyNotify (atom : Atom) (state : PropertyState) (time : ℕ)
  deriving DecidableEq, Repr

/-- An event of the owner. -/
inductive OwnerEvent (ι : Type*)
  | selectionRequest (r : ι)
  | propertyNotify (window : Window) (atom : Atom) (state : PropertyState)
  deriving DecidableEq, Repr

/-- A call of `getSelection`. -/
structure Request where
  requestor : Window
  property : Atom
  target : Atom
  deriving DecidableEq, Repr

/-- What does not change: the limits of a request of the X protocol, the clipboard and the
requests. -/
structure Config (ι : Type*) where
  /-- How many bytes a property gets at once. -/
  increment : ℕ
  increment_pos : 0 < increment
  /-- How many words of a property are read at once. -/
  maxWords : ℕ
  maxWords_pos : 0 < maxWords
  CLIP_TEMPORARY : Atom
  /-- The bytes of the block that `GetData` returns for a target. -/
  clip : Atom → Option (List UInt8)
  request : ι → Request

/-- The members of `INCRTransaction`. -/
structure Transaction where
  property : Atom
  data : List UInt8
  offset : ℕ
  deriving DecidableEq, Repr

/-- Where a call of `getSelection` is. -/
inductive Stage
  | idle
  /-- Waits for `XCB_SELECTION_NOTIFY`. -/
  | waiting
  /-- Before it reads the property. -/
  | notified
  /-- In `clipboardReadIncrementalProperty`. -/
  | incremental (prev_time : ℕ)
  | done
  deriving DecidableEq, Repr

/-- The X server, the owner and the requestors. -/
structure State (ι : Type*) where
  now : ℕ
  props : Window → Atom → Option Value
  /-- The events of the windows, for their requestors. -/
  queue : Window → List Event
  /-- `m_evtQueue` of the owner. -/
  evtQueue : List (OwnerEvent ι)
  /-- The owner has selected the events of the properties of the window. -/
  mask : Window → Bool
  /-- `transactions`; a transaction that is not in the map is never reached. -/
  transactions : Window → Option Transaction
  stage : ι → Stage
  received : ι → List UInt8

/-- A step of the server's clock, of the owner or of a requestor. -/
inductive Act (ι : Type*)
  | tick
  /-- The owner handles its next event. -/
  | ownerEvent
  /-- `getSelection` up to the wait. -/
  | getSelection (r : ι)
  | selectionNotify (r : ι)
  /-- The first read; the time is that of `getSectionTs`. -/
  | readProperty (r : ι) (ts : ℕ)
  /-- The next round of `clipboardReadIncrementalProperty`. -/
  | incrementalRound (r : ι)
  deriving DecidableEq, Repr

variable {ι : Type*}

/-- Nothing has been requested. -/
def init : State ι :=
  ⟨0, fun _ _ => none, fun _ => [], [], fun _ => false, fun _ => none, fun _ => .idle, fun _ => []⟩

/-! ### The server -/

namespace State

variable (s : State ι)

/-- A change of a property is notified. -/
def notify (w : Window) (a : Atom) (st : PropertyState) : State ι :=
  { s with
    queue := update s.queue w (s.queue w ++ [.propertyNotify a st s.now])
    evtQueue := if s.mask w then s.evtQueue ++ [.propertyNotify w a st] else s.evtQueue }

/-- `xcb_change_property` -/
def changeProperty (w : Window) (a : Atom) (v : Value) : State ι :=
  { s with props := update s.props w (update (s.props w) a (some v)) }.notify w a
    .newValue

/-- `xcb_delete_property` -/
def deleteProperty (w : Window) (a : Atom) : State ι :=
  if (s.props w a).isSome then
    { s with props := update s.props w (update (s.props w) a none) }.notify w a
      .delete
  else s

/-- `xcb_send_event` of `XCB_SELECTION_NOTIFY` -/
def sendNotify (w : Window) (property : Option Atom) : State ι :=
  { s with queue := update s.queue w (s.queue w ++ [.selectionNotify property]) }

end State

/-! ### The owner -/

/-- `sendSelection`, with the property that it returns. -/
def sendSelection (c : Config ι) (s : State ι) (q : Request) : Option Atom × State ι :=
  match c.clip q.target with
  | none => (none, s)
  | some src =>
    if c.increment < src.length then
      if q.property ≠ c.CLIP_TEMPORARY then
        -- the vector has `increment` bytes, and so many are copied
        let data := src.take c.increment
        let s := s.changeProperty q.requestor q.property (.incr c.increment)
        -- `insert` into the map keeps a transaction of the window
        (some q.property,
          { s with
            mask := update s.mask q.requestor true
            transactions := update s.transactions q.requestor
              (some ((s.transactions q.requestor).getD ⟨q.property, data, 0⟩)) })
      else (none, s)
    else (some q.property, s.changeProperty q.requestor q.property (.data src))

/-- `handleSelectionRequest` of one target. -/
def handleSelectionRequest (c : Config ι) (s : State ι) (q : Request) : State ι :=
  let r := sendSelection c s q
  r.2.sendNotify q.requestor r.1

/-- `updateIncrProperty` -/
def updateIncrProperty (c : Config ι) (s : State ι) (w : Window) (t : Transaction) (atom : Atom)
    (st : PropertyState) : State ι :=
  if atom = t.property ∧ st = .delete then
    let bytes_left := t.data.length - t.offset
    if 0 < bytes_left then
      let bytes_to_send := min c.increment bytes_left
      let part := (t.data.drop t.offset).take bytes_to_send
      { s.changeProperty w t.property (.data part) with
        transactions := update s.transactions w
          (some { t with offset := t.offset + bytes_to_send }) }
    else
      { s.changeProperty w t.property (.data []) with
        mask := update s.mask w false
        transactions := update s.transactions w none }
  else s

/-- The owner handles an event. -/
def ownerEvent (c : Config ι) (s : State ι) : OwnerEvent ι → State ι
  | .selectionRequest r => handleSelectionRequest c s (c.request r)
  | .propertyNotify w a st =>
    -- `incrTransactionPeeker`
    match s.transactions w with
    | some t => updateIncrProperty c s w t a st
    | none => s

/-! ### The requestor -/

/-- The loop of `clipboardReadProperty`: `offset` counts words. -/
def readLoop (value : List UInt8) (maxWords : ℕ) : ℕ → ℕ → List UInt8 → List UInt8
  | 0, _, buffer => buffer
  | fuel + 1, offset, buffer =>
    let data := (value.drop (4 * offset)).take (4 * maxWords)
    let bytes_left := value.length - (4 * offset + data.length)
    if bytes_left = 0 then buffer ++ data
    else readLoop value maxWords fuel (offset + data.length / 4) (buffer ++ data)

/-- `clipboardReadProperty` of a property that exists; every round reads a byte at least. -/
def clipboardReadProperty (maxWords : ℕ) (value : List UInt8) : List UInt8 :=
  readLoop value maxWords value.length 0 []

namespace State

variable (s : State ι)

/-- `checkEvent`: the first event of the window that the test accepts. -/
def takeEvent (w : Window) (p : Event → Bool) : Option (Event × State ι) :=
  ((s.queue w).find? p).map fun e =>
    (e, { s with queue := update s.queue w ((s.queue w).eraseP p) })

variable [DecidableEq ι]

/-- The call `r` returns what it has received and `bytes`. -/
def finish (r : ι) (bytes : List UInt8) : State ι :=
  { s with
    stage := update s.stage r .done
    received := update s.received r (s.received r ++ bytes) }

/-- The call `r` goes on. -/
def goto (r : ι) (stage : Stage) : State ι := { s with stage := update s.stage r stage }

end State

/-- Is it `XCB_SELECTION_NOTIFY`? -/
def Event.isSelectionNotify : Event → Bool
  | .selectionNotify _ => true
  | _ => false

/-- Is it `XCB_PROPERTY_NOTIFY`? -/
def Event.isPropertyNotify : Event → Bool
  | .propertyNotify .. => true
  | _ => false

/-- One step. -/
def next [DecidableEq ι] (c : Config ι) (s : State ι) : Act ι → Option (State ι)
  | .tick => some { s with now := s.now + 1 }
  | .ownerEvent =>
    match s.evtQueue with
    | e :: evtQueue => some (ownerEvent c { s with evtQueue } e)
    | [] => none
  | .getSelection r =>
    let q := c.request r
    if s.stage r = .idle then
      let s := s.deleteProperty q.requestor q.property
      some ({ s with evtQueue := s.evtQueue ++ [OwnerEvent.selectionRequest r] }.goto r .waiting)
    else none
  | .selectionNotify r =>
    if s.stage r = .waiting then
      match s.takeEvent (c.request r).requestor Event.isSelectionNotify with
      | some (.selectionNotify (some _), s) => some (s.goto r .notified)
      | some (_, s) => some (s.finish r [])
      | none => none
    else none
  | .readProperty r ts =>
    let q := c.request r
    if s.stage r = .notified ∧ ts ≤ s.now then
      match s.props q.requestor q.property with
      | none => some (s.finish r [])
      | some (.incr _) =>
        some ((s.deleteProperty q.requestor q.property).goto r (.incremental ts))
      | some (.data bytes) =>
        some ((s.deleteProperty q.requestor q.property).finish r
          (clipboardReadProperty c.maxWords bytes))
    else none
  | .incrementalRound r =>
    let q := c.request r
    match s.stage r with
    | .incremental prev_time =>
      match s.takeEvent q.requestor Event.isPropertyNotify with
      | some (.propertyNotify atom st time, s) =>
        if atom ≠ q.property ∨ st ≠ .newValue ∨ time < prev_time then some s
        else
          match s.props q.requestor q.property with
          | none => some (s.finish r [])
          | some v =>
            let bytes := clipboardReadProperty c.maxWords v.bytes
            let s := s.deleteProperty q.requestor q.property
            if bytes = [] then some (s.finish r [])
            else some ({ s with
              received := update s.received r (s.received r ++ bytes) }.goto r
                (.incremental time))
      | _ => none
    | _ => none

/-- The owner and the requestors as a transition system. -/
def lts [DecidableEq ι] (c : Config ι) : LTS (State ι) (Act ι) := ⟨next c⟩

/-- The call is between its request and its end. -/
def Stage.active : Stage → Bool
  | .idle | .done => false
  | _ => true

/-- A step that serves the request: one of the owner, or of the call itself. -/
def Act.Serves (r : ι) : Act ι → Prop
  | .ownerEvent => True
  | .selectionNotify r' | .readProperty r' _ | .incrementalRound r' => r' = r
  | .tick | .getSelection _ => False

/-- The owner and the call bring the request to its end. -/
def CanFinish [DecidableEq ι] (c : Config ι) (s : State ι) (r : ι) : Prop :=
  ∃ acts s', (∀ act ∈ acts, act.Serves r) ∧ (lts c).run s acts = some s' ∧ s'.stage r = .done

/-- **The transfers are sound.** -/
structure Sound [DecidableEq ι] (c : Config ι) (s : State ι) : Prop where
  /-- A request gets the bytes of the clipboard. -/
  received : ∀ r, s.stage r = .done → s.received r = (c.clip (c.request r).target).getD []
  /-- When all requests are done, no transaction is left. -/
  cleared : (∀ r, s.stage r = .idle ∨ s.stage r = .done) → ∀ w, s.transactions w = none
  /-- A request that has begun can be brought to its end. -/
  finishes : ∀ r, (s.stage r).active = true → CanFinish c s r

/-- **The good steps**: the data fits into one property, and its window has no other request. -/
def Orderly (c : Config ι) (s : State ι) : Act ι → Prop
  | .getSelection r =>
    (∀ src ∈ c.clip (c.request r).target, src.length ≤ c.increment) ∧
      ∀ r', (c.request r').requestor = (c.request r).requestor → (s.stage r').active = false
  | _ => True

instance decidableOrderly [Fintype ι] (c : Config ι) (s : State ι) (act : Act ι) :
    Decidable (Orderly c s act) :=
  match act with
  | .getSelection _ => inferInstanceAs (Decidable (_ ∧ _))
  | .tick | .ownerEvent | .selectionNotify _ | .readProperty .. | .incrementalRound _ =>
    .isTrue trivial

theorem readLoop_eq (value : List UInt8) {maxWords : ℕ} (hpos : 0 < maxWords) :
    ∀ fuel offset, value.length ≤ 4 * offset + fuel → 4 * offset ≤ value.length →
      readLoop value maxWords fuel offset (value.take (4 * offset)) = value := by
  intro fuel
  induction fuel with
  | zero =>
    intro offset hfuel hle
    rw [readLoop, List.take_of_length_le (by omega)]
  | succ fuel ih =>
    intro offset hfuel hle
    have hdata : value.take (4 * offset) ++ (value.drop (4 * offset)).take (4 * maxWords) =
        value.take (4 * offset + 4 * maxWords) := List.take_add.symm
    have hlen : ((value.drop (4 * offset)).take (4 * maxWords)).length =
        min (4 * maxWords) (value.length - 4 * offset) := by
      rw [List.length_take, List.length_drop]
    rw [readLoop]
    simp only [hdata, hlen]
    split_ifs with hleft
    · exact List.take_of_length_le (by omega)
    · -- all but the last round read whole words
      have hmin : min (4 * maxWords) (value.length - 4 * offset) = 4 * maxWords := by omega
      have hoff : 4 * offset + 4 * maxWords = 4 * (offset + 4 * maxWords / 4) := by omega
      rw [hmin, hoff]
      exact ih _ (by omega) (by omega)

/-- **A property is read as it is.** -/
theorem clipboardReadProperty_eq {maxWords : ℕ} (hpos : 0 < maxWords) (value : List UInt8) :
    clipboardReadProperty maxWords value = value := by
  have h := readLoop_eq value hpos value.length 0 (by omega) (by omega)
  exact h

/-- The notifications of the selection among the events of a window. -/
def notified (l : List Event) : List (Option Atom) :=
  l.filterMap fun
    | .selectionNotify property => some property
    | _ => none

theorem notified_append (l l' : List Event) : notified (l ++ l') = notified l ++ notified l' :=
  List.filterMap_append ..

theorem find?_isSelectionNotify (l : List Event) :
    l.find? Event.isSelectionNotify = (notified l).head?.map .selectionNotify ∧
      notified (l.eraseP Event.isSelectionNotify) = (notified l).tail := by
  induction l with
  | nil => exact ⟨rfl, rfl⟩
  | cons e l ih =>
    cases e with
    | selectionNotify property => exact ⟨rfl, rfl⟩
    | propertyNotify atom st time => exact ih

variable {c : Config ι}

/-- What a request waits for. -/
def reply (c : Config ι) (r : ι) : Option Atom :=
  (c.clip (c.request r).target).map fun _ => (c.request r).property

/-- The property of the request holds its data. -/
def Served (c : Config ι) (s : State ι) (r : ι) : Prop :=
  ∀ src ∈ c.clip (c.request r).target,
    s.props (c.request r).requestor (c.request r).property = some (.data src)

/-- What is known of a request. -/
def RequestOk (c : Config ι) (s : State ι) (r : ι) : Prop :=
  match s.stage r with
  | .idle => True
  | .waiting =>
    (∀ src ∈ c.clip (c.request r).target, src.length ≤ c.increment) ∧
      (.selectionRequest r ∈ s.evtQueue ∧ notified (s.queue (c.request r).requestor) = [] ∨
        .selectionRequest r ∉ s.evtQueue ∧
          notified (s.queue (c.request r).requestor) = [reply c r] ∧ Served c s r)
  | .notified => (reply c r).isSome = true ∧ Served c s r
  | .incremental _ => False
  | .done => s.received r = (c.clip (c.request r).target).getD []

/-- What is known in an orderly run. -/
structure Inv (c : Config ι) (s : State ι) : Prop where
  request : ∀ r, RequestOk c s r
  /-- A request has received nothing before its end. -/
  nothing : ∀ r, s.stage r ≠ .done → s.received r = []
  quiet : ∀ w, s.mask w = false ∧ s.transactions w = none
  queued : ∀ e ∈ s.evtQueue, ∃ r, e = .selectionRequest r ∧ s.stage r = .waiting
  nodup : s.evtQueue.Nodup
  alone : ∀ r r', (s.stage r).active = true → (s.stage r').active = true →
    (c.request r).requestor = (c.request r').requestor → r = r'
  silent : ∀ w, (∀ r, (c.request r).requestor = w → s.stage r ≠ .waiting) →
    notified (s.queue w) = []

theorem inv_init : Inv c (init : State ι) := by
  constructor <;> simp [init, RequestOk, notified, Stage.active]

namespace Inv

variable {s s' : State ι}

theorem moved (hI : Inv c s) (r : ι)
    (hstage : ∀ r', r' ≠ r → s'.stage r' = s.stage r' ∧ s'.received r' = s.received r' ∧
      (.selectionRequest r' ∈ s'.evtQueue ↔ .selectionRequest r' ∈ s.evtQueue))
    (hwin : ∀ w, w ≠ (c.request r).requestor →
      notified (s'.queue w) = notified (s.queue w) ∧ s'.props w = s.props w)
    (hother : ∀ r', r' ≠ r → (c.request r').requestor = (c.request r).requestor →
      (s.stage r').active = false)
    (hok : RequestOk c s' r) (hnothing : s'.stage r ≠ .done → s'.received r = [])
    (hquiet : ∀ w, s'.mask w = false ∧ s'.transactions w = none)
    (hqueued : ∀ e ∈ s'.evtQueue, ∃ r, e = .selectionRequest r ∧ s'.stage r = .waiting)
    (hnodup : s'.evtQueue.Nodup)
    (hsilent : s'.stage r ≠ .waiting → notified (s'.queue (c.request r).requestor) = []) :
    Inv c s' := by
  refine ⟨fun r' => ?_, fun r' hr' => ?_, hquiet, hqueued, hnodup, fun r₁ r₂ h₁ h₂ hwin' => ?_,
    fun w hw => ?_⟩
  · rcases eq_or_ne r' r with rfl | hne
    · exact hok
    obtain ⟨hst, hrec, hmem⟩ := hstage r' hne
    have hold := hI.request r'
    by_cases hsame : (c.request r').requestor = (c.request r).requestor
    · have hinactive := hother r' hne hsame
      unfold RequestOk at hold ⊢
      rw [hst, hrec]
      cases hs : s.stage r' <;> rw [hs] at hinactive hold
      case idle | done => exact hold
      all_goals cases hinactive
    · obtain ⟨hnot, hprops⟩ := hwin _ hsame
      unfold RequestOk Served at hold ⊢
      rw [hst, hrec, hmem, hnot, hprops]
      exact hold
  · rcases eq_or_ne r' r with rfl | hne
    · exact hnothing hr'
    · rw [(hstage r' hne).2.1]
      exact hI.nothing r' ((hstage r' hne).1 ▸ hr')
  · by_contra hne
    rcases eq_or_ne r₁ r with rfl | hne₁
    · have hne₂ : r₂ ≠ r₁ := fun h => hne h.symm
      rw [(hstage r₂ hne₂).1, hother r₂ hne₂ hwin'.symm] at h₂
      cases h₂
    rcases eq_or_ne r₂ r with rfl | hne₂
    · rw [(hstage r₁ hne₁).1, hother r₁ hne₁ hwin'] at h₁
      cases h₁
    rw [(hstage r₁ hne₁).1] at h₁
    rw [(hstage r₂ hne₂).1] at h₂
    exact hne (hI.alone r₁ r₂ h₁ h₂ hwin')
  · rcases eq_or_ne w (c.request r).requestor with rfl | hne
    · exact hsilent (hw r rfl)
    · rw [(hwin w hne).1]
      refine hI.silent w fun r' hr' => ?_
      have hne' : r' ≠ r := fun h => hne (by rw [← hr', h])
      rw [← (hstage r' hne').1]
      exact hw r' hr'

end Inv

theorem notify_eq {s : State ι} {w : Window} (hmask : s.mask w = false) (a : Atom)
    (st : PropertyState) : ∃ queue, s.notify w a st = { s with queue } ∧
      ∀ w', notified (queue w') = notified (s.queue w') := by
  refine ⟨_, by rw [State.notify, hmask]; rfl, fun w' => ?_⟩
  rcases eq_or_ne w' w with rfl | hne
  · rw [update_self, notified_append]
    exact List.append_nil _
  · rw [update_of_ne hne]

theorem changeProperty_eq {s : State ι} {w : Window} (hmask : s.mask w = false) (a : Atom)
    (v : Value) : ∃ props queue, s.changeProperty w a v = { s with props, queue } ∧
      (∀ w', notified (queue w') = notified (s.queue w')) ∧ (∀ w', w' ≠ w → props w' = s.props w') ∧
      props w a = some v := by
  obtain ⟨queue, heq, hnot⟩ := notify_eq (s := { s with
    props := update s.props w (update (s.props w) a (some v)) }) hmask a .newValue
  refine ⟨_, queue, heq, hnot, fun w' hne => update_of_ne hne .., ?_⟩
  simp only [update_self]

theorem deleteProperty_eq {s : State ι} {w : Window} (hmask : s.mask w = false) (a : Atom) :
    ∃ props queue, s.deleteProperty w a = { s with props, queue } ∧
      (∀ w', notified (queue w') = notified (s.queue w')) ∧
        ∀ w', w' ≠ w → props w' = s.props w' := by
  unfold State.deleteProperty
  split_ifs
  · obtain ⟨queue, heq, hnot⟩ := notify_eq (s := { s with
      props := update s.props w (update (s.props w) a none) }) hmask a .delete
    exact ⟨_, queue, heq, hnot, fun w' hne => update_of_ne hne ..⟩
  · exact ⟨s.props, s.queue, rfl, fun _ => rfl, fun _ _ => rfl⟩

theorem CanFinish.of_done [DecidableEq ι] {s : State ι} {r : ι} (h : s.stage r = .done) :
    CanFinish c s r :=
  ⟨[], s, by simp, rfl, h⟩

theorem CanFinish.step [DecidableEq ι] {s s' : State ι} {r : ι} {act : Act ι}
    (hn : next c s act = some s') (hserves : act.Serves r) (h : CanFinish c s' r) :
    CanFinish c s r := by
  obtain ⟨acts, u, hacts, hrun, hdone⟩ := h
  refine ⟨act :: acts, u, fun a ha => ?_, LTS.run_cons_eq_some.2 ⟨s', hn, hrun⟩, hdone⟩
  rcases List.mem_cons.1 ha with rfl | ha
  · exact hserves
  · exact hacts a ha

namespace Inv

variable {s s' : State ι} [DecidableEq ι]

theorem getSelection (hI : Inv c s) {r : ι} (hidle : s.stage r = .idle)
    (hgood : Orderly c s (.getSelection r)) {props : Window → Atom → Option Value}
    {queue : Window → List Event} (hnot : ∀ w, notified (queue w) = notified (s.queue w))
    (hprops : ∀ w, w ≠ (c.request r).requestor → props w = s.props w) :
    Inv c { s with
      props, queue
      evtQueue := s.evtQueue ++ [.selectionRequest r]
      stage := update s.stage r .waiting } := by
  obtain ⟨hfits, hfree⟩ := hgood
  have hnotin : .selectionRequest r ∉ s.evtQueue := by
    intro hmem
    obtain ⟨r', heq, hst⟩ := hI.queued _ hmem
    cases heq
    cases hidle.symm.trans hst
  have hsilent : notified (s.queue (c.request r).requestor) = [] := by
    refine hI.silent _ fun r' hr' hw => ?_
    have := hfree r' hr'
    rw [hw] at this
    cases this
  refine hI.moved r (fun r' hne => ?_) (fun w hne => ⟨hnot w, hprops w hne⟩)
    (fun r' _ hsame => hfree r' hsame) ?_ (fun _ => hI.nothing r (by simp [hidle])) hI.quiet
    (fun e he => ?_) ?_ fun hne => absurd (update_self ..) hne
  · refine ⟨update_of_ne hne .., rfl, ?_⟩
    simp [hne]
  · simp only [RequestOk, update_self]
    exact ⟨hfits, .inl ⟨by simp, by rw [hnot, hsilent]⟩⟩
  · rcases List.mem_append.1 he with he | he
    · obtain ⟨r', rfl, hst⟩ := hI.queued e he
      refine ⟨r', rfl, ?_⟩
      rcases eq_or_ne r' r with rfl | hne
      · exact update_self ..
      · exact (update_of_ne hne ..).trans hst
    · exact ⟨r, List.mem_singleton.1 he, update_self ..⟩
  · refine List.nodup_append.2 ⟨hI.nodup, List.nodup_singleton _, fun e he e' he' => ?_⟩
    rw [List.mem_singleton.1 he']
    rintro rfl
    exact hnotin he

omit [DecidableEq ι] in
theorem ownerEvent (hI : Inv c s) {e : OwnerEvent ι} {rest : List (OwnerEvent ι)}
    (hqueue : s.evtQueue = e :: rest) :
    Inv c (Incr.ownerEvent c { s with evtQueue := rest } e) := by
  obtain ⟨r, rfl, hwaiting⟩ := hI.queued e (by rw [hqueue]; exact List.mem_cons_self)
  have hok := hI.request r
  rw [RequestOk, hwaiting] at hok
  have hnodup := hI.nodup
  rw [hqueue, List.nodup_cons] at hnodup
  have hin : .selectionRequest r ∈ s.evtQueue := by rw [hqueue]; exact List.mem_cons_self
  obtain ⟨hfits, ⟨-, hnone⟩ | ⟨hnotin, -⟩⟩ := hok
  case inr => exact absurd hin hnotin
  have hactive : (s.stage r).active = true := by rw [hwaiting]; rfl
  -- in each case the request has its reply and the property its data
  have hserved : ∀ props queue, (∀ w, notified (queue w) = notified (s.queue w)) →
      (∀ w, w ≠ (c.request r).requestor → props w = s.props w) →
      (∀ src ∈ c.clip (c.request r).target,
        props (c.request r).requestor (c.request r).property = some (.data src)) →
      Inv c (State.sendNotify { s with props, queue, evtQueue := rest } (c.request r).requestor
        (reply c r)) := by
    intro props queue hnot hprops hdata
    refine hI.moved r (fun r' hne => ⟨rfl, rfl, ?_⟩) (fun w hne => ⟨?_, hprops w hne⟩)
      (fun r' hne hsame => ?_) ?_ (hI.nothing r) hI.quiet (fun e he => ?_) hnodup.2
      fun hne => absurd hwaiting hne
    · rw [hqueue]
      simp [State.sendNotify, hne]
    · simp only [State.sendNotify]
      rw [update_of_ne hne, hnot]
    · by_contra hact
      exact hne (hI.alone r' r (by simpa using hact) hactive hsame)
    · unfold RequestOk
      simp only [State.sendNotify, hwaiting]
      refine ⟨hfits, .inr ⟨hnodup.1, ?_, hdata⟩⟩
      rw [update_self, notified_append, hnot, hnone]
      rfl
    · refine hI.queued e ?_
      rw [hqueue]
      exact List.mem_cons_of_mem _ he
  simp only [Incr.ownerEvent, handleSelectionRequest]
  unfold sendSelection
  cases hclip : c.clip (c.request r).target with
  | none =>
    have := hserved s.props s.queue (fun _ => rfl) (fun _ _ => rfl) (by simp [hclip])
    rwa [reply, hclip] at this
  | some src =>
    have hlen := hfits src hclip
    simp only [if_neg (not_lt.2 hlen)]
    obtain ⟨props, queue, heq, hnot, hprops, hself⟩ := changeProperty_eq
      (s := { s with evtQueue := rest }) (hI.quiet (c.request r).requestor).1
      (c.request r).property (.data src)
    rw [heq]
    have := hserved props queue hnot hprops (by rintro _ h; rw [hclip] at h; cases h; exact hself)
    rwa [reply, hclip] at this

omit [DecidableEq ι] in
theorem served (hI : Inv c s) {r : ι} (hwaiting : s.stage r = .waiting)
    (hnot : notified (s.queue (c.request r).requestor) ≠ []) :
    .selectionRequest r ∉ s.evtQueue ∧
      notified (s.queue (c.request r).requestor) = [reply c r] ∧ Served c s r := by
  have hok := hI.request r
  rw [RequestOk, hwaiting] at hok
  exact hok.2.resolve_left fun h => hnot h.2

theorem notification (hI : Inv c s) {r : ι} (hwaiting : s.stage r = .waiting)
    (hnot : notified (s.queue (c.request r).requestor) ≠ []) {stage : Stage}
    (hstage : (reply c r = none ∧ stage = .done) ∨ ((reply c r).isSome ∧ stage = .notified)) :
    Inv c { s with
      queue := update s.queue (c.request r).requestor
        ((s.queue (c.request r).requestor).eraseP Event.isSelectionNotify)
      stage := update s.stage r stage } := by
  obtain ⟨hnotin, hreply, hserved⟩ := hI.served hwaiting hnot
  have hactive : (s.stage r).active = true := by rw [hwaiting]; rfl
  have hnothing := hI.nothing r (by simp [hwaiting])
  have hempty :
      notified ((s.queue (c.request r).requestor).eraseP Event.isSelectionNotify) = [] := by
    rw [(find?_isSelectionNotify _).2, hreply, List.tail_cons]
  refine hI.moved r (fun r' hne => ⟨update_of_ne hne .., rfl, Iff.rfl⟩)
    (fun w hne => ⟨congrArg notified (update_of_ne hne ..), rfl⟩)
    (fun r' hne hsame => ?_) ?_ (fun _ => hnothing) hI.quiet (fun e he => ?_) hI.nodup
    fun _ => by simp only [update_self]; exact hempty
  · by_contra hact
    exact hne (hI.alone r' r (by simpa using hact) hactive hsame)
  · simp only [RequestOk, update_self]
    rcases hstage with ⟨hnone, rfl⟩ | ⟨hsome, rfl⟩
    · have hclip : c.clip (c.request r).target = none := by simpa [reply] using hnone
      simp only [hnothing, hclip]
      rfl
    · exact ⟨hsome, hserved⟩
  · obtain ⟨r', rfl, hst⟩ := hI.queued e he
    have hne : r' ≠ r := by
      rintro rfl
      exact hnotin he
    exact ⟨r', rfl, (update_of_ne hne ..).trans hst⟩

theorem readProperty (hI : Inv c s) {r : ι} (hnotified : s.stage r = .notified)
    {props : Window → Atom → Option Value} {queue : Window → List Event}
    (hnot : ∀ w, notified (queue w) = notified (s.queue w))
    (hprops : ∀ w, w ≠ (c.request r).requestor → props w = s.props w) {src : List UInt8}
    (hsrc : c.clip (c.request r).target = some src) :
    Inv c ({ s with props, queue }.finish r src) := by
  have hactive : (s.stage r).active = true := by rw [hnotified]; rfl
  have hnothing := hI.nothing r (by simp [hnotified])
  have hsilent : notified (s.queue (c.request r).requestor) = [] := by
    refine hI.silent _ fun r' hr' hw => ?_
    have hsame := hI.alone r' r (by rw [hw]; rfl) hactive hr'
    rw [hsame, hnotified] at hw
    cases hw
  refine hI.moved r (fun r' hne => ⟨update_of_ne hne .., update_of_ne hne ..,
    Iff.rfl⟩) (fun w hne => ⟨hnot w, hprops w hne⟩) (fun r' hne hsame => ?_) ?_
    (fun hne => absurd (update_self ..) hne) hI.quiet (fun e he => ?_) hI.nodup
    fun _ => (hnot _).trans hsilent
  · by_contra hact
    exact hne (hI.alone r' r (by simpa using hact) hactive hsame)
  · simp only [RequestOk, State.finish, update_self, hnothing, hsrc]
    rfl
  · obtain ⟨r', rfl, hst⟩ := hI.queued e he
    have hne : r' ≠ r := by
      rintro rfl
      cases hnotified.symm.trans hst
    exact ⟨r', rfl, (update_of_ne hne ..).trans hst⟩

theorem next (hI : Inv c s) {act : Act ι} (hgood : Orderly c s act)
    (hn : Incr.next c s act = some s') : Inv c s' := by
  cases act with
  | tick =>
    obtain rfl := Option.some.inj hn
    exact { hI with }
  | ownerEvent =>
    simp only [Incr.next] at hn
    split at hn
    · next e rest hqueue =>
      obtain rfl := Option.some.inj hn
      exact hI.ownerEvent hqueue
    · cases hn
  | getSelection r =>
    simp only [Incr.next, Option.ite_none_right_eq_some, Option.some.injEq] at hn
    obtain ⟨hidle, rfl⟩ := hn
    obtain ⟨props, queue, heq, hnot, hprops⟩ :=
      deleteProperty_eq (hI.quiet (c.request r).requestor).1 (c.request r).property
    rw [heq]
    exact hI.getSelection hidle hgood hnot hprops
  | selectionNotify r =>
    simp only [Incr.next, Option.ite_none_right_eq_some] at hn
    obtain ⟨hwaiting, hn⟩ := hn
    have hne : notified (s.queue (c.request r).requestor) ≠ [] := by
      intro hnil
      rw [State.takeEvent, (find?_isSelectionNotify _).1, hnil] at hn
      cases hn
    obtain ⟨-, hreply, -⟩ := hI.served hwaiting hne
    rw [State.takeEvent, (find?_isSelectionNotify _).1, hreply] at hn
    cases hr : reply c r with
    | none =>
      rw [hr] at hn
      obtain rfl := Option.some.inj hn
      have hI' := hI.notification hwaiting hne (.inl ⟨hr, rfl⟩)
      simpa [State.finish] using hI'
    | some a =>
      rw [hr] at hn
      obtain rfl := Option.some.inj hn
      exact hI.notification hwaiting hne (.inr ⟨by rw [hr]; rfl, rfl⟩)
  | readProperty r ts =>
    simp only [Incr.next, Option.ite_none_right_eq_some] at hn
    obtain ⟨⟨hnotified, -⟩, hn⟩ := hn
    have hok := hI.request r
    rw [RequestOk, hnotified] at hok
    obtain ⟨hsome, hserved⟩ := hok
    obtain ⟨src, hsrc⟩ : ∃ src, c.clip (c.request r).target = some src := by
      simpa [reply, Option.isSome_iff_exists] using hsome
    rw [hserved src hsrc] at hn
    obtain ⟨props, queue, heq, hnot, hprops⟩ :=
      deleteProperty_eq (hI.quiet (c.request r).requestor).1 (c.request r).property
    simp only [heq, clipboardReadProperty_eq c.maxWords_pos] at hn
    obtain rfl := Option.some.inj hn
    exact hI.readProperty hnotified hnot hprops hsrc
  | incrementalRound r =>
    have hok := hI.request r
    simp only [Incr.next] at hn
    split at hn
    · next prev_time hst =>
      rw [RequestOk, hst] at hok
      exact hok.elim
    · cases hn

omit [DecidableEq ι] in
/-- The owner handles its first event and nothing else. -/
theorem ownerEvent_eq (hI : Inv c s) {e : OwnerEvent ι} {rest : List (OwnerEvent ι)}
    (hqueue : s.evtQueue = e :: rest) :
    (Incr.ownerEvent c { s with evtQueue := rest } e).stage = s.stage ∧
      (Incr.ownerEvent c { s with evtQueue := rest } e).evtQueue = rest := by
  obtain ⟨r, rfl, hwaiting⟩ := hI.queued e (by rw [hqueue]; exact List.mem_cons_self)
  have hok := hI.request r
  rw [RequestOk, hwaiting] at hok
  simp only [Incr.ownerEvent, handleSelectionRequest]
  unfold sendSelection
  cases hclip : c.clip (c.request r).target with
  | none => exact ⟨rfl, rfl⟩
  | some src =>
    simp only [if_neg (not_lt.2 (hok.1 src hclip))]
    obtain ⟨props, queue, heq, -⟩ := changeProperty_eq (s := { s with evtQueue := rest })
      (hI.quiet (c.request r).requestor).1 (c.request r).property (.data src)
    rw [heq]
    exact ⟨rfl, rfl⟩

theorem canFinish_notified (hI : Inv c s) {r : ι} (hnotified : s.stage r = .notified) :
    CanFinish c s r := by
  have hok := hI.request r
  rw [RequestOk, hnotified] at hok
  obtain ⟨src, hsrc⟩ : ∃ src, c.clip (c.request r).target = some src := by
    simpa [reply, Option.isSome_iff_exists] using hok.1
  have hn : Incr.next c s (.readProperty r 0) =
      some ((s.deleteProperty (c.request r).requestor (c.request r).property).finish r
        (clipboardReadProperty c.maxWords src)) := by
    simp only [Incr.next, hnotified, Nat.zero_le, and_self, if_true, hok.2 src hsrc]
  exact .step hn rfl (.of_done (update_self ..))

theorem canFinish_replied (hI : Inv c s) {r : ι} (hwaiting : s.stage r = .waiting)
    (hreply : notified (s.queue (c.request r).requestor) = [reply c r]) : CanFinish c s r := by
  have hn : Incr.next c s (.selectionNotify r) =
      match reply c r, { s with
        queue := update s.queue (c.request r).requestor
          ((s.queue (c.request r).requestor).eraseP Event.isSelectionNotify) } with
      | some _, s => some (s.goto r .notified)
      | none, s => some (s.finish r []) := by
    simp only [Incr.next, hwaiting, if_true, State.takeEvent, (find?_isSelectionNotify _).1, hreply]
    cases reply c r <;> rfl
  cases hr : reply c r with
  | none =>
    rw [hr] at hn
    exact .step hn rfl (.of_done (update_self ..))
  | some a =>
    rw [hr] at hn
    exact .step hn rfl ((hI.next (by trivial) hn).canFinish_notified (update_self ..))

/-- **An active request can be finished**: the owner comes to its event, and the call goes on. -/
theorem canFinish (hI : Inv c s) {r : ι} (hactive : (s.stage r).active = true) :
    CanFinish c s r := by
  induction hlen : s.evtQueue.length using Nat.strong_induction_on generalizing s with
  | _ n ih =>
    have hok := hI.request r
    cases hstage : s.stage r with
    | idle | done =>
      rw [hstage] at hactive
      cases hactive
    | incremental prev_time =>
      rw [RequestOk, hstage] at hok
      exact hok.elim
    | notified => exact hI.canFinish_notified hstage
    | waiting =>
      rw [RequestOk, hstage] at hok
      rcases hok.2 with ⟨hmem, -⟩ | ⟨-, hreply, -⟩
      · -- the owner has events before this one or none
        obtain ⟨e, rest, hqueue⟩ := List.exists_cons_of_ne_nil (List.ne_nil_of_mem hmem)
        have hn : Incr.next c s .ownerEvent =
            some (Incr.ownerEvent c { s with evtQueue := rest } e) := by
          simp only [Incr.next, hqueue]
        obtain ⟨hsame, hrest⟩ := hI.ownerEvent_eq hqueue
        refine .step hn trivial (ih rest.length ?_ (hI.next (by trivial) hn) ?_ (by rw [hrest]))
        · rw [← hlen, hqueue, List.length_cons]
          exact Nat.lt_succ_self _
        · rw [hsame, hstage]
          rfl
      · exact hI.canFinish_replied hstage hreply

theorem sound (hI : Inv c s) : Sound c s := by
  refine ⟨fun r hr => ?_, fun _ w => (hI.quiet w).2, fun r => hI.canFinish⟩
  have hok := hI.request r
  rwa [RequestOk, hr] at hok

end Inv

/-- **The requests of an orderly run are sound**, in every state of it. -/
theorem sound_of_orderly [DecidableEq ι] (c : Config ι) {acts : List (Act ι)}
    (h : (lts c).AllSteps (Orderly c) init acts) : (lts c).AllStates (Sound c) init acts :=
  LTS.allStates_of_allSteps (I := Inv c) (fun _ hI => hI.sound)
    (fun _ _ _ hI hgood hn => hI.next hgood hn) inv_init h

/-- A clipboard with three bytes of text, and two requestors; a property gets two bytes at once. -/
def threeBytes (increment : ℕ) (h : 0 < increment) : Config Bool where
  increment := increment
  increment_pos := h
  maxWords := 16384
  maxWords_pos := by decide
  CLIP_TEMPORARY := 99
  clip target := if target = 31 then some [104, 101, 121] else none
  request r := if r then ⟨501, 7, 31⟩ else ⟨502, 7, 31⟩

/-- Two requests at the same time. -/
def bothRequests : List (Act Bool) :=
  [.getSelection true, .getSelection false, .ownerEvent, .ownerEvent, .selectionNotify false,
    .readProperty false 0, .selectionNotify true, .readProperty true 0]

theorem sound_bothRequests : (lts (threeBytes 4 (by decide))).AllStates
    (Sound (threeBytes 4 (by decide))) init bothRequests :=
  sound_of_orderly _ (by decide)

/-- A single request of three bytes, two at once. -/
def oneLargeRequest : List (Act Bool) :=
  [.getSelection true, .ownerEvent, .selectionNotify true, .readProperty true 0, .ownerEvent,
    .incrementalRound true, .ownerEvent, .ownerEvent, .incrementalRound true,
    .incrementalRound true]

/-- The transaction holds the first two bytes only, and the request ends with them. -/
theorem part_lost : ∃ s, (lts (threeBytes 2 (by decide))).run init oneLargeRequest = some s ∧
    s.stage true = .done ∧ s.received true = [104, 101] ∧
      ¬ Sound (threeBytes 2 (by decide)) s := by
  refine ⟨_, rfl, by decide, by decide, fun h => ?_⟩
  exact absurd (h.received true (by decide)) (by decide)

end Incr

end Clipboard

end Swinx
