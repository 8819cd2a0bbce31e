import Mathlib
import Swinx.LTS.Basic

/-!
# The geometry of a window

A window follows the configure events of the server: reading one posts `WM_MOVE` and `WM_SIZE`, and
dispatching these changes the rectangle of the window.  A newer event takes back what is still
queued, and posts nothing that the rectangle of the window already says.

The rectangle of a child is kept relative to its parent, as in the events, but the event is compared
with the rectangle on the screen.

* `geometry_converges` — the geometry converges in runs with such events.
* `displaced` — a child that is moved to where its parent is stays where it was.
-/

namespace Swinx

namespace Geometry

/-! ### Rectangles and messages -/

structure RECT where
  left : ℤ
  top : ℤ
  right : ℤ
  bottom : ℤ
  deriving DecidableEq, Repr

structure POINT where
  x : ℤ
  y : ℤ
  deriving DecidableEq, Repr

/-- `OffsetRect` -/
def RECT.offsetRect (rc : RECT) (dx dy : ℤ) : RECT :=
  ⟨rc.left + dx, rc.top + dy, rc.right + dx, rc.bottom + dy⟩

def RECT.pos (rc : RECT) : POINT := ⟨rc.left, rc.top⟩

/-- The width and the height. -/
def RECT.size (rc : RECT) : POINT := ⟨rc.right - rc.left, rc.bottom - rc.top⟩

/-- `xcb_configure_notify_event_t`, for the window; `x` and `y` are signed. -/
structure ConfigureNotify where
  x : BitVec 16
  y : BitVec 16
  width : BitVec 16
  height : BitVec 16
  deriving DecidableEq, Repr

def WM_MOVE : ℕ := 0x0003

def WM_SIZE : ℕ := 0x0005

/-- `MAKELPARAM` -/
def makeLParam (l h : ℤ) : BitVec 32 := BitVec.ofInt 16 h ++ BitVec.ofInt 16 l

/-- `GET_X_LPARAM` -/
def getX (lp : BitVec 32) : ℤ := (lp.extractLsb' 0 16).toInt

/-- `GET_Y_LPARAM` -/
def getY (lp : BitVec 32) : ℤ := (lp.extractLsb' 16 16).toInt

/-- `Msg` -/
structure Msg where
  hwnd : ℕ
  message : ℕ
  lParam : BitVec 32
  deriving DecidableEq, Repr

/-- The two coordinates in `lParam`. -/
def Msg.point (m : Msg) : POINT := ⟨getX m.lParam, getY m.lParam⟩

/-! ### The window -/

/-- What `GetWindowRect` sees of an ancestor: its rectangle, if there is one, and `WS_CHILD`. -/
structure Ancestor where
  rect : Option RECT
  child : Bool
  deriving DecidableEq, Repr

/-- The position and the size that an event tells. -/
structure Told where
  pos : POINT
  size : POINT
  deriving DecidableEq, Repr

/-- A window, its events and the messages. -/
structure State where
  hwnd : ℕ
  /-- `dwStyle & WS_CHILD` -/
  child : Bool
  /-- The parent, its parent and so on. -/
  parents : List Ancestor
  rc : RECT
  /-- The events in `m_evtQueue`. -/
  evtQueue : List ConfigureNotify
  msgQueue : List Msg
  /-- The messages that were taken out of the queue and not dispatched yet. -/
  taken : List Msg
  /-- What the last event told that was read. -/
  last : Option Told

/-- The loop of `GetWindowRect` -/
def getWindowRect (rc : RECT) : Bool → List Ancestor → RECT
  | false, _ => rc
  | true, [] => rc
  | true, p :: ps =>
    match p.rect with
    | none => rc
    | some rcParent => getWindowRect (rc.offsetRect rcParent.left rcParent.top) p.child ps

/-- A message of this kind for this window. -/
def ofKind (message hwnd : ℕ) (m : Msg) : Bool := m.message = message ∧ m.hwnd = hwnd

/-- The first message of the kind is deleted. -/
def deleteMsg (message hwnd : ℕ) (msgs : List Msg) : List Msg :=
  msgs.eraseP (ofKind message hwnd)

namespace State

/-- `pos`, with the reply to `xcb_translate_coordinates`, which is asked for a window without a
parent. -/
def position (s : State) (e : ConfigureNotify) (reply : Option (BitVec 16 × BitVec 16)) : POINT :=
  if s.parents = [] then
    match reply with
    | some (dst_x, dst_y) => ⟨dst_x.toInt, dst_y.toInt⟩
    | none => ⟨e.x.toInt, e.y.toInt⟩
  else ⟨e.x.toInt, e.y.toInt⟩

/-- The size of the event. -/
def eventSize (e : ConfigureNotify) : POINT := ⟨e.width.toNat, e.height.toNat⟩

/-- The message is posted if the window is not there or has another size. -/
def posted (s : State) (message : ℕ) (now want : POINT) : List Msg :=
  if now.x ≠ want.x ∨ now.y ≠ want.y then [⟨s.hwnd, message, makeLParam want.x want.y⟩] else []

/-- `XCB_CONFIGURE_NOTIFY` in `pushEvent` -/
def pushEvent (s : State) (e : ConfigureNotify) (reply : Option (BitVec 16 × BitVec 16)) : State :=
  let rc := getWindowRect s.rc s.child s.parents
  { s with
    msgQueue := deleteMsg WM_SIZE s.hwnd (deleteMsg WM_MOVE s.hwnd s.msgQueue) ++
      (s.posted WM_MOVE rc.pos (s.position e reply) ++ s.posted WM_SIZE rc.size (eventSize e))
    last := some ⟨s.position e reply, eventSize e⟩ }

/-- `WM_MOVE` and `WM_SIZE` in `CallWindowProcPriv` -/
def callWindowProc (s : State) (m : Msg) : State :=
  if m.hwnd ≠ s.hwnd then s
  else if m.message = WM_MOVE then
    { s with rc := s.rc.offsetRect (getX m.lParam - s.rc.left) (getY m.lParam - s.rc.top) }
  else if m.message = WM_SIZE then
    if getX m.lParam ≠ s.rc.right - s.rc.left ∨ getY m.lParam ≠ s.rc.bottom - s.rc.top then
      { s with
        rc :=
          { s.rc with
            right := s.rc.left + getX m.lParam
            bottom := s.rc.top + getY m.lParam } }
    else s
  else s

end State

/-- What happens. -/
inductive Act
  /-- The server sends an event. -/
  | configure (e : ConfigureNotify)
  /-- The oldest event is read. -/
  | read (reply : Option (BitVec 16 × BitVec 16))
  /-- A message is taken out of the queue. -/
  | take (i : ℕ)
  /-- A message that was taken out is dispatched. -/
  | dispatch (i : ℕ)
  /-- Another message is queued. -/
  | post (m : Msg)
  /-- The ancestors have moved. -/
  | ancestors (parents : List Ancestor)
  deriving DecidableEq, Repr

/-- The message is a `WM_MOVE` or a `WM_SIZE` of the window. -/
def State.Concerns (s : State) (m : Msg) : Prop :=
  m.hwnd = s.hwnd ∧ (m.message = WM_MOVE ∨ m.message = WM_SIZE)

instance decidableConcerns (s : State) (m : Msg) : Decidable (s.Concerns m) := by
  unfold State.Concerns
  infer_instance

/-- One step. -/
def next (s : State) : Act → Option State
  | .configure e => some { s with evtQueue := s.evtQueue ++ [e] }
  | .read reply =>
    match s.evtQueue with
    | [] => none
    | e :: evtQueue => some ({ s with evtQueue }.pushEvent e reply)
  | .take i =>
    match s.msgQueue[i]? with
    | none => none
    | some m =>
      some
        { s with
          msgQueue := s.msgQueue.eraseIdx i
          taken := s.taken ++ [m] }
  | .dispatch i =>
    match s.taken[i]? with
    | none => none
    | some m => some ({ s with taken := s.taken.eraseIdx i }.callWindowProc m)
  | .post m => if s.Concerns m then none else some { s with msgQueue := s.msgQueue ++ [m] }
  | .ancestors parents => some { s with parents }

/-- The program. -/
def lts : LTS State Act := ⟨next⟩

/-- A window before its first event. -/
def init (hwnd : ℕ) (child : Bool) (parents : List Ancestor) (rc : RECT) : State :=
  ⟨hwnd, child, parents, rc, [], [], [], none⟩

/-- **The geometry has converged**: when no event is left to read and no `WM_MOVE` and `WM_SIZE` is
left to dispatch, the window is where the last event told. -/
def Sound (s : State) : Prop :=
  s.evtQueue = [] → (∀ m ∈ s.msgQueue ++ s.taken, ¬ s.Concerns m) →
    ∀ told ∈ s.last, s.rc.pos = told.pos ∧ s.rc.size = told.size

/-- **The events after which the geometry converges**: no older `WM_MOVE` or `WM_SIZE` has been
taken out of the queue and is still to be dispatched, the position of the event is that of the
window on the screen only if it is that in its parent, and a size that changes is below 32768. -/
def Orderly (s : State) : Act → Prop
  | .read reply =>
    (∀ m ∈ s.taken, ¬ s.Concerns m) ∧
      ∀ e ∈ s.evtQueue.head?,
        ((getWindowRect s.rc s.child s.parents).pos = s.position e reply →
          s.rc.pos = s.position e reply) ∧
        (s.rc.size = State.eventSize e ∨ e.width.toNat < 32768 ∧ e.height.toNat < 32768)
  | _ => True

instance decidableOrderly (s : State) (act : Act) : Decidable (Orderly s act) := by
  cases act <;> unfold Orderly <;> infer_instance

/-! ### Coordinates in messages -/

theorem getX_makeLParam (l h : ℤ) : getX (makeLParam l h) = (BitVec.ofInt 16 l).toInt := by
  unfold getX makeLParam
  rw [BitVec.extractLsb'_append_eq_right]

theorem getY_makeLParam (l h : ℤ) : getY (makeLParam l h) = (BitVec.ofInt 16 h).toInt := by
  unfold getY makeLParam
  rw [BitVec.extractLsb'_append_eq_left]

theorem getX_makeLParam_toInt (x : BitVec 16) (h : ℤ) : getX (makeLParam x.toInt h) = x.toInt := by
  rw [getX_makeLParam, BitVec.ofInt_toInt]

theorem getY_makeLParam_toInt (l : ℤ) (y : BitVec 16) : getY (makeLParam l y.toInt) = y.toInt := by
  rw [getY_makeLParam, BitVec.ofInt_toInt]

theorem toInt_ofInt_toNat (w : BitVec 16) (h : w.toNat < 32768) :
    (BitVec.ofInt 16 w.toNat).toInt = w.toNat := by
  rw [BitVec.toInt_ofInt]
  exact Int.bmod_eq_of_le (by omega) (by omega)

theorem State.position_point (s : State) (e : ConfigureNotify)
    (reply : Option (BitVec 16 × BitVec 16)) :
    ∃ x y : BitVec 16, s.position e reply = ⟨x.toInt, y.toInt⟩ := by
  unfold State.position
  split_ifs
  · cases reply with
    | some p => exact ⟨p.1, p.2, rfl⟩
    | none => exact ⟨e.x, e.y, rfl⟩
  · exact ⟨e.x, e.y, rfl⟩

theorem size_getWindowRect (rc : RECT) (child : Bool) (parents : List Ancestor) :
    (getWindowRect rc child parents).size = rc.size := by
  have hoffset : ∀ (rc : RECT) (dx dy : ℤ), (rc.offsetRect dx dy).size = rc.size := by
    intro rc dx dy
    simp only [RECT.size, RECT.offsetRect, add_sub_add_right_eq_sub]
  induction parents generalizing rc child with
  | nil => cases child <;> rfl
  | cons p ps ih =>
    cases child with
    | false => rfl
    | true =>
      unfold getWindowRect
      cases p.rect with
      | none => rfl
      | some rcParent => exact (ih _ _).trans (hoffset rc _ _)

/-! ### Messages that are on their way -/

/-- The messages of a kind that are queued or taken out. -/
def State.pending (s : State) (message : ℕ) : List Msg :=
  (s.msgQueue ++ s.taken).filter (ofKind message s.hwnd)

/-- What was told last is in the one message that is on its way, or has come true. -/
def Settled (msgs : List Msg) (want : Option POINT) (now : POINT) : Prop :=
  msgs = [] ∧ (∀ p ∈ want, now = p) ∨ ∃ m p, msgs = [m] ∧ want = some p ∧ m.point = p

theorem Settled.perm {msgs msgs' : List Msg} {want : Option POINT} {now : POINT}
    (h : Settled msgs want now) (hperm : msgs'.Perm msgs) : Settled msgs' want now := by
  rcases h with ⟨rfl, h⟩ | ⟨m, p, rfl, h⟩
  · exact .inl ⟨hperm.eq_nil, h⟩
  · exact .inr ⟨m, p, List.perm_singleton.1 hperm, h⟩

theorem Settled.length_le {msgs : List Msg} {want : Option POINT} {now : POINT}
    (h : Settled msgs want now) : msgs.length ≤ 1 := by
  rcases h with ⟨rfl, -⟩ | ⟨m, p, rfl, -⟩
  · exact Nat.zero_le 1
  · exact le_rfl

theorem Settled.dispatched {m : Msg} {msgs : List Msg} {want : Option POINT} {now : POINT}
    (h : Settled (m :: msgs) want now) : Settled msgs want m.point := by
  rcases h with ⟨h, -⟩ | ⟨m', p, h, rfl, hp⟩
  · exact absurd h (List.cons_ne_nil m msgs)
  · obtain ⟨rfl, rfl⟩ := List.cons.inj h
    exact .inl ⟨rfl, fun q hq => hp.trans (Option.some.inj hq)⟩

/-- Deleting the first message of a kind deletes all of them if there is at most one. -/
theorem filter_deleteMsg (message hwnd : ℕ) (msgs : List Msg)
    (h : (msgs.filter (ofKind message hwnd)).length ≤ 1) :
    (deleteMsg message hwnd msgs).filter (ofKind message hwnd) = [] := by
  induction msgs with
  | nil => rfl
  | cons m msgs ih =>
    unfold deleteMsg
    by_cases hm : ofKind message hwnd m = true
    · rw [List.eraseP_cons_of_pos hm]
      rw [List.filter_cons_of_pos hm, List.length_cons] at h
      exact List.length_eq_zero_iff.1 (by omega)
    · rw [List.eraseP_cons_of_neg hm, List.filter_cons_of_neg hm]
      rw [List.filter_cons_of_neg hm] at h
      exact ih h

theorem filter_deleteMsg_of_ne {message message' : ℕ} (hne : message ≠ message') (hwnd : ℕ)
    (msgs : List Msg) : (deleteMsg message' hwnd msgs).filter (ofKind message hwnd) =
      msgs.filter (ofKind message hwnd) := by
  induction msgs with
  | nil => rfl
  | cons m msgs ih =>
    unfold deleteMsg
    by_cases hm : ofKind message' hwnd m = true
    · have hm' : ¬ ofKind message hwnd m = true := by
        simp only [ofKind, decide_eq_true_eq] at hm ⊢
        exact fun h => hne (h.1.symm.trans hm.1)
      rw [List.eraseP_cons_of_pos hm, List.filter_cons_of_neg hm']
    · rw [List.eraseP_cons_of_neg hm, List.filter_cons, List.filter_cons]
      rw [deleteMsg] at ih
      rw [ih]

/-- **The invariant**, for the position and for the size. -/
structure Inv (s : State) : Prop where
  moves : Settled (s.pending WM_MOVE) (s.last.map Told.pos) s.rc.pos
  sizes : Settled (s.pending WM_SIZE) (s.last.map Told.size) s.rc.size

theorem inv_init (hwnd : ℕ) (child : Bool) (parents : List Ancestor) (rc : RECT) :
    Inv (init hwnd child parents rc) :=
  ⟨.inl ⟨rfl, fun _ h => nomatch h⟩, .inl ⟨rfl, fun _ h => nomatch h⟩⟩

theorem Inv.sound {s : State} (hI : Inv s) : Sound s := by
  intro _ hquiet told htold
  have hnone : ∀ message, message = WM_MOVE ∨ message = WM_SIZE → s.pending message = [] := by
    intro message hm
    refine List.filter_eq_nil_iff.2 fun m hmem h => hquiet m hmem ?_
    simp only [ofKind, decide_eq_true_eq] at h
    exact ⟨h.2, h.1 ▸ hm⟩
  have hsettled : ∀ {message : ℕ} {want : Option POINT} {now p : POINT},
      Settled (s.pending message) want now → (message = WM_MOVE ∨ message = WM_SIZE) →
        want = some p → now = p := by
    intro message want now p h hm hp
    rcases h with ⟨-, h⟩ | ⟨m, q, h, -⟩
    · exact h p hp
    · exact absurd ((hnone message hm).symm.trans h) (List.cons_ne_nil m []).symm
  have hlast : s.last = some told := htold
  exact ⟨hsettled hI.moves (.inl rfl) (by rw [hlast]; rfl),
    hsettled hI.sizes (.inr rfl) (by rw [hlast]; rfl)⟩

/-- A message of a kind is posted, or what it would tell is true. -/
theorem settled_posted (s : State) (message : ℕ) {now want : POINT} {now' : POINT}
    (hsame : now = want → now' = want)
    (hback : now ≠ want → getX (makeLParam want.x want.y) = want.x ∧
      getY (makeLParam want.x want.y) = want.y) :
    Settled ((s.posted message now want).filter (ofKind message s.hwnd)) (some want) now' := by
  unfold State.posted
  split_ifs with h
  · have hne : now ≠ want := fun heq => by simp [heq] at h
    refine .inr ⟨_, want, List.filter_cons_of_pos (by simp [ofKind]), rfl, ?_⟩
    obtain ⟨hx, hy⟩ := hback hne
    unfold Msg.point
    rw [hx, hy]
  · have heq : now = want := by
      cases now
      cases want
      simpa [not_or] using h
    exact .inl ⟨rfl, fun p hp => (hsame heq).trans (Option.some.inj hp)⟩

theorem filter_posted_of_ne (s : State) {message message' : ℕ} (hne : message ≠ message')
    (now want : POINT) : (s.posted message' now want).filter (ofKind message s.hwnd) = [] := by
  unfold State.posted
  split_ifs
  · exact List.filter_cons_of_neg (by simp [ofKind, hne.symm])
  · rfl

theorem Inv.pushEvent {s : State} (hI : Inv s) {e : ConfigureNotify}
    {reply : Option (BitVec 16 × BitVec 16)} (htaken : ∀ m ∈ s.taken, ¬ s.Concerns m)
    (hpos : (getWindowRect s.rc s.child s.parents).pos = s.position e reply →
      s.rc.pos = s.position e reply)
    (hsize : s.rc.size = State.eventSize e ∨ e.width.toNat < 32768 ∧ e.height.toNat < 32768) :
    Inv (s.pushEvent e reply) := by
  have hne : WM_MOVE ≠ WM_SIZE := by decide
  have hnone : ∀ message, message = WM_MOVE ∨ message = WM_SIZE →
      s.taken.filter (ofKind message s.hwnd) = [] := by
    intro message hm
    refine List.filter_eq_nil_iff.2 fun m hmem h => htaken m hmem ?_
    simp only [ofKind, decide_eq_true_eq] at h
    exact ⟨h.2, h.1 ▸ hm⟩
  have hfew : ∀ {message : ℕ} {want : Option POINT} {now : POINT},
      Settled (s.pending message) want now →
        (s.msgQueue.filter (ofKind message s.hwnd)).length ≤ 1 := by
    intro message want now h
    have hle := h.length_le
    rw [State.pending, List.filter_append, List.length_append] at hle
    omega
  constructor
  · have hpending : (s.pushEvent e reply).pending WM_MOVE = (s.posted WM_MOVE
        (getWindowRect s.rc s.child s.parents).pos (s.position e reply)).filter
          (ofKind WM_MOVE s.hwnd) := by
      unfold State.pending State.pushEvent
      simp only [List.filter_append]
      rw [filter_deleteMsg_of_ne hne, filter_deleteMsg _ _ _ (hfew hI.moves),
        filter_posted_of_ne s hne, hnone WM_MOVE (.inl rfl), List.nil_append, List.append_nil,
        List.append_nil]
    rw [hpending]
    refine settled_posted s WM_MOVE hpos fun _ => ?_
    obtain ⟨x, y, hxy⟩ := s.position_point e reply
    rw [hxy]
    exact ⟨getX_makeLParam_toInt x _, getY_makeLParam_toInt _ y⟩
  · have hpending : (s.pushEvent e reply).pending WM_SIZE = (s.posted WM_SIZE
        (getWindowRect s.rc s.child s.parents).size (State.eventSize e)).filter
          (ofKind WM_SIZE s.hwnd) := by
      unfold State.pending State.pushEvent
      simp only [List.filter_append]
      rw [filter_deleteMsg, filter_posted_of_ne s hne.symm, hnone WM_SIZE (.inr rfl),
        List.nil_append, List.nil_append, List.append_nil]
      rw [filter_deleteMsg_of_ne hne.symm]
      exact hfew hI.sizes
    rw [hpending, size_getWindowRect]
    refine settled_posted s WM_SIZE id fun hne => ?_
    obtain ⟨hw, hh⟩ := hsize.resolve_left hne
    rw [getX_makeLParam, getY_makeLParam]
    exact ⟨toInt_ofInt_toNat e.width hw, toInt_ofInt_toNat e.height hh⟩

theorem Inv.perm {s s' : State} (hI : Inv s)
    (hperm : (s'.msgQueue ++ s'.taken).Perm (s.msgQueue ++ s.taken)) (hhwnd : s'.hwnd = s.hwnd)
    (hrc : s'.rc = s.rc) (hlast : s'.last = s.last) : Inv s' := by
  have hpending : ∀ message, (s'.pending message).Perm (s.pending message) := fun message => by
    rw [State.pending, State.pending, hhwnd]
    exact hperm.filter _
  constructor
  · rw [hrc, hlast]
    exact hI.moves.perm (hpending WM_MOVE)
  · rw [hrc, hlast]
    exact hI.sizes.perm (hpending WM_SIZE)

/-- A message that does not concern the window changes nothing. -/
theorem callWindowProc_of_not_concerns {s : State} {m : Msg} (h : ¬ s.Concerns m) :
    s.callWindowProc m = s := by
  unfold State.callWindowProc
  unfold State.Concerns at h
  split_ifs with hhwnd hmove hsize
  · rfl
  · exact absurd ⟨not_not.1 hhwnd, .inl hmove⟩ h
  · exact absurd ⟨not_not.1 hhwnd, .inr hsize⟩ h
  · rfl
  · rfl

theorem callWindowProc_move {s : State} {m : Msg} (hhwnd : m.hwnd = s.hwnd)
    (hm : m.message = WM_MOVE) : ∃ rc, s.callWindowProc m = { s with rc } ∧
      rc.pos = m.point ∧ rc.size = s.rc.size := by
  unfold State.callWindowProc
  rw [if_neg (not_not.2 hhwnd), if_pos hm]
  refine ⟨_, rfl, ?_, ?_⟩
  · simp only [RECT.pos, RECT.offsetRect, Msg.point, add_sub_cancel]
  · simp only [RECT.size, RECT.offsetRect, add_sub_add_right_eq_sub]

theorem callWindowProc_size {s : State} {m : Msg} (hhwnd : m.hwnd = s.hwnd)
    (hm : m.message = WM_SIZE) : ∃ rc, s.callWindowProc m = { s with rc } ∧
      rc.size = m.point ∧ rc.pos = s.rc.pos := by
  have hmove : m.message ≠ WM_MOVE := by
    rw [hm]
    decide
  unfold State.callWindowProc
  rw [if_neg (not_not.2 hhwnd), if_neg hmove, if_pos hm]
  split_ifs with h
  · refine ⟨_, rfl, ?_, rfl⟩
    simp only [RECT.size, Msg.point, add_sub_cancel_left]
  · rw [not_or, not_not, not_not] at h
    refine ⟨s.rc, rfl, ?_, rfl⟩
    simp only [RECT.size, Msg.point, h.1, h.2]

theorem Inv.callWindowProc {s : State} {m : Msg} {taken : List Msg} (hI : Inv s)
    (hperm : (m :: taken).Perm s.taken) : Inv ({ s with taken }.callWindowProc m) := by
  have hne : WM_MOVE ≠ WM_SIZE := by decide
  have hall : ∀ message, ((m :: (s.msgQueue ++ taken)).filter (ofKind message s.hwnd)).Perm
      (s.pending message) := fun message =>
    ((List.perm_middle.symm.trans (hperm.append_left _))).filter _
  have hother : ∀ message, ¬ ofKind message s.hwnd m = true →
      ((s.msgQueue ++ taken).filter (ofKind message s.hwnd)).Perm (s.pending message) := by
    intro message hm
    have := hall message
    rwa [List.filter_cons_of_neg hm] at this
  have hself : ∀ {message : ℕ} {want : Option POINT} {now : POINT},
      ofKind message s.hwnd m = true → Settled (s.pending message) want now →
        Settled ((s.msgQueue ++ taken).filter (ofKind message s.hwnd)) want m.point := by
    intro message want now hm h
    have := h.perm (hall message)
    rw [List.filter_cons_of_pos hm] at this
    exact this.dispatched
  by_cases hc : s.Concerns m
  · obtain ⟨hhwnd, hmove | hsize⟩ := hc
    · obtain ⟨rc, hrc, hpos, hsame⟩ := callWindowProc_move (s := { s with taken }) hhwnd hmove
      rw [hrc]
      constructor
      · change Settled _ _ rc.pos
        rw [hpos]
        exact hself (by simp [ofKind, hmove, hhwnd]) hI.moves
      · change Settled _ _ rc.size
        rw [hsame]
        exact hI.sizes.perm (hother WM_SIZE (by simp [ofKind, hmove, hne]))
    · obtain ⟨rc, hrc, hto, hsame⟩ := callWindowProc_size (s := { s with taken }) hhwnd hsize
      rw [hrc]
      constructor
      · change Settled _ _ rc.pos
        rw [hsame]
        exact hI.moves.perm (hother WM_MOVE (by simp [ofKind, hsize, hne.symm]))
      · change Settled _ _ rc.size
        rw [hto]
        exact hself (by simp [ofKind, hsize, hhwnd]) hI.sizes
  · rw [callWindowProc_of_not_concerns (s := { s with taken }) hc]
    have hneg : ∀ message, message = WM_MOVE ∨ message = WM_SIZE →
        ¬ ofKind message s.hwnd m = true := by
      intro message hm h
      simp only [ofKind, decide_eq_true_eq] at h
      exact hc ⟨h.2, h.1 ▸ hm⟩
    exact ⟨hI.moves.perm (hother WM_MOVE (hneg _ (.inl rfl))),
      hI.sizes.perm (hother WM_SIZE (hneg _ (.inr rfl)))⟩

theorem Inv.next {s s' : State} {act : Act} (hI : Inv s) (ho : Orderly s act)
    (h : next s act = some s') : Inv s' := by
  cases act with
  | configure e =>
    obtain rfl := Option.some.inj h
    exact ⟨hI.moves, hI.sizes⟩
  | read reply =>
    simp only [Geometry.next] at h
    split at h
    case h_1 => cases h
    case h_2 e evtQueue hqueue =>
      obtain rfl := Option.some.inj h
      have hI' : Inv { s with evtQueue } := ⟨hI.moves, hI.sizes⟩
      obtain ⟨hpos, hsize⟩ := ho.2 e (by simp [hqueue])
      exact hI'.pushEvent ho.1 hpos hsize
  | take i =>
    simp only [Geometry.next] at h
    split at h
    case h_1 => cases h
    case h_2 m hm =>
      obtain rfl := Option.some.inj h
      obtain ⟨hi, rfl⟩ := List.getElem?_eq_some_iff.1 hm
      refine hI.perm ?_ rfl rfl rfl
      have hperm := List.getElem_cons_eraseIdx_perm hi
      calc (s.msgQueue.eraseIdx i ++ (s.taken ++ [s.msgQueue[i]])).Perm
            (s.msgQueue[i] :: (s.msgQueue.eraseIdx i ++ s.taken)) := by
              rw [← List.append_assoc]
              exact List.perm_append_singleton _ _
        List.Perm _ (s.msgQueue ++ s.taken) := hperm.append_right s.taken
  | dispatch i =>
    simp only [Geometry.next] at h
    split at h
    case h_1 => cases h
    case h_2 m hm =>
      obtain rfl := Option.some.inj h
      obtain ⟨hi, rfl⟩ := List.getElem?_eq_some_iff.1 hm
      exact hI.callWindowProc (List.getElem_cons_eraseIdx_perm hi)
  | post m =>
    simp only [Geometry.next] at h
    split_ifs at h with hc
    obtain rfl := Option.some.inj h
    have hpending : ∀ message, message = WM_MOVE ∨ message = WM_SIZE →
        State.pending { s with msgQueue := s.msgQueue ++ [m] } message = s.pending message := by
      intro message hm
      have hneg : ¬ ofKind message s.hwnd m = true := fun h => by
        simp only [ofKind, decide_eq_true_eq] at h
        exact hc ⟨h.2, h.1 ▸ hm⟩
      simp only [State.pending, List.filter_append, List.filter_cons_of_neg hneg, List.filter_nil,
        List.append_nil]
    constructor
    · rw [hpending WM_MOVE (.inl rfl)]
      exact hI.moves
    · rw [hpending WM_SIZE (.inr rfl)]
      exact hI.sizes
  | ancestors parents =>
    obtain rfl := Option.some.inj h
    exact ⟨hI.moves, hI.sizes⟩

/-- **The geometry of a window converges**, whatever its place among the windows. -/
theorem geometry_converges (hwnd : ℕ) (child : Bool) (parents : List Ancestor) (rc : RECT)
    (acts : List Act) (h : lts.AllSteps Orderly (init hwnd child parents rc) acts) :
    lts.AllStates Sound (init hwnd child parents rc) acts :=
  LTS.allStates_of_allSteps (I := Inv) (fun _ hI => hI.sound) (fun _ _ _ hI ho hn => hI.next ho hn)
    (inv_init hwnd child parents rc) h

/-- A child of a window at (100, 100), which moves and is sized. -/
def sampleActs : List Act :=
  [.configure ⟨5, 6, 40, 30⟩, .read none, .post ⟨8, WM_MOVE, 0⟩, .configure ⟨7, 6, 50, 30⟩,
    .ancestors [⟨some ⟨90, 80, 500, 400⟩, false⟩], .read none, .take 2, .take 0, .dispatch 1,
    .dispatch 0, .take 0, .dispatch 0]

theorem geometry_converges_child : lts.AllStates Sound
    (init 9 true [⟨some ⟨100, 100, 500, 400⟩, false⟩] ⟨0, 0, 40, 30⟩) sampleActs :=
  geometry_converges 9 true _ _ sampleActs (by decide)

/-- The same child is moved to (100, 100) in its parent. -/
def displacingActs : List Act := [.configure ⟨100, 100, 40, 30⟩, .read none]

/-- **A child is displaced.**  It is at (100, 100) on the screen already, so nothing is posted. -/
theorem displaced : ∃ s, lts.run
    (init 9 true [⟨some ⟨100, 100, 500, 400⟩, false⟩] ⟨0, 0, 40, 30⟩) displacingActs = some s ∧
    s.evtQueue = [] ∧ s.msgQueue = [] ∧ s.taken = [] ∧ s.rc.pos = ⟨0, 0⟩ ∧
    s.last = some ⟨⟨100, 100⟩, ⟨40, 30⟩⟩ ∧ ¬ Sound s := by
  refine ⟨_, rfl, rfl, rfl, rfl, rfl, rfl, fun h => ?_⟩
  exact absurd (h rfl (fun _ hm => absurd hm List.not_mem_nil) _ rfl).1 (by decide)

end Geometry

end Swinx
