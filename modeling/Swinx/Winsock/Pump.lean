import Mathlib
import Swinx.LTS.Basic

/-!
# Network events

`WSAEventSelect` and `WSAAsyncSelect` register a socket.  In each round `pumpLoop` polls the
registered sockets: it sets the event of a socket, or posts a message for the conditions that did
not hold in the round before.  The messages of a round are posted after the lock is released.

The pump sees the levels at its rounds only, and `poll` does not tell data from connections.

* `notified_of_orderly` — in orderly runs the notifications are sound.
* `rearrival_lost` — data that arrives after a read between two rounds.
-/

namespace Swinx

namespace Winsock

/-- `FD_READ`, …; the other bits are never reported. -/
inductive NetEvent
  | read
  | write
  | oob
  | accept
  | connect
  | close
  deriving DecidableEq, Repr

/-- What the kernel knows of a socket. -/
structure Sock where
  listening : Bool
  /-- Unread bytes, or connections that wait. -/
  unread : ℕ
  eof : Bool
  /-- `send` takes something. -/
  writable : Bool
  /-- There is urgent data. -/
  pri : Bool
  err : Bool
  hup : Bool
  /-- `SO_ERROR` -/
  sockErr : ℕ
  /-- The descriptor is open. -/
  opened : Bool
  deriving DecidableEq, Repr

/-- The bits of `psxPollOne`. -/
structure Ready where
  read : Bool
  write : Bool
  except : Bool
  hangup : Bool
  deriving DecidableEq, Repr

/-- `psxPollOne`, when `poll` does not fail -/
def psxPollOne (k : Sock) : Ready where
  read := decide (0 < k.unread) || k.eof || k.err || !k.opened
  write := k.writable
  except := k.pri || k.err || !k.opened
  hangup := k.hup

/-- `SelectEntry`; no event and no window are 0, and an error is kept as its `errno`. -/
structure Entry where
  /-- The socket. -/
  fd : ℕ
  /-- The event object, or 0. -/
  event : ℕ
  hwnd : ℕ
  msg : ℕ
  /-- What is asked for. -/
  mask : Finset NetEvent
  /-- What `WSAEnumNetworkEvents` gives. -/
  pending : Finset NetEvent
  /-- The bits of the last round. -/
  reported : Finset NetEvent
  errors : NetEvent → ℕ
  /-- The selected conditions that held in the rounds since the last enumeration. -/
  seen : Finset NetEvent
  /-- What is to be read or accepted was reported since it came to the empty socket. -/
  told : Bool

/-- What is to be read or accepted. -/
def Sock.readBit (k : Sock) : NetEvent := if k.listening then .accept else .read

/-- The conditions of a socket; a failed `poll` counts as the end. -/
def conditions (k : Sock) : Option Ready → Finset NetEvent
  | none => {.close}
  | some r =>
    (if r.hangup then {.close} else ∅) ∪ (if r.read then {k.readBit} else ∅) ∪
      (if r.write then {.connect, .write} else ∅) ∪ if r.except then {.oob} else ∅

namespace Entry

/-- `live` in `pumpLoop` -/
def live (e : Entry) : Option Ready → Finset NetEvent
  | none => {.close} ∩ e.mask
  | some r =>
    ((if r.hangup then {.close}
      else if r.read then if .accept ∈ e.mask then {.accept} else {.read} else ∅) ∪
      (if r.write ∧ .connect ∈ e.mask then {.connect} else ∅) ∪
      (if r.write ∧ .write ∈ e.mask then {.write} else ∅) ∪
      if r.except ∧ .oob ∈ e.mask then {.oob} else ∅) ∩ e.mask

/-- The errors that a round notes. -/
def newErrors (e : Entry) (k : Sock) (errno : ℕ) : Option Ready → NetEvent → ℕ
  | none => fun ev => if ev = .close then errno else e.errors ev
  | some r => fun ev =>
    if ev = .connect ∧ r.write = true ∧ .connect ∈ e.mask ∧ k.sockErr ≠ 0 then k.sockErr
    else e.errors ev

/-- `fresh`, for an entry with a window -/
def fresh (e : Entry) (r : Option Ready) : Finset NetEvent :=
  if e.event = 0 ∧ e.hwnd ≠ 0 then e.live r \ e.reported else ∅

/-- The entry after a round. -/
def sampled (e : Entry) (k : Sock) (r : Option Ready) (errno : ℕ) : Entry :=
  { e with
    pending := e.pending ∪ e.live r
    reported := if e.event = 0 ∧ e.hwnd ≠ 0 then e.live r else e.reported
    errors := e.newErrors k errno r
    seen := e.seen ∪ conditions k r ∩ e.mask
    told := e.told || decide (k.readBit ∈ e.fresh r) }

end Entry

/-- `AsyncNotify` -/
structure AsyncNotify where
  hwnd : ℕ
  msg : ℕ
  fd : ℕ
  bits : Finset NetEvent
  errors : NetEvent → ℕ
  /-- `FD_READ` was selected, and there was unread data that had not been reported. -/
  unreported : Bool
  /-- The socket was closed before it was posted. -/
  closed : Bool

/-- The notification of a round for an entry. -/
def Entry.notify (e : Entry) (k : Sock) (r : Option Ready) (errno : ℕ) : Option AsyncNotify :=
  if e.fresh r = ∅ then none
  else
    some
      { hwnd := e.hwnd
        msg := e.msg
        fd := e.fd
        bits := e.fresh r
        errors := e.newErrors k errno r
        unreported := !k.listening && decide (.read ∈ e.mask) && decide (0 < k.unread) &&
          !(e.sampled k r errno).told
        closed := false }

/-- The sockets, `g_eventEntries` in the order of the map, the events that are set, and what is to
be posted and has been posted. -/
structure State where
  sockets : ℕ → Sock
  /-- `g_eventEntries` -/
  entries : List Entry
  /-- The events that are set. -/
  signalled : ℕ → Bool
  /-- What the round has collected. -/
  notifications : List AsyncNotify
  /-- What `PostMessage` was called with. -/
  posted : List AsyncNotify
  /-- The results of `WSAEnumNetworkEvents`, with what the rounds had seen. -/
  enums : List (Finset NetEvent × Finset NetEvent)
  /-- Nothing has happened since the last round but posting. -/
  afterRound : Bool

/-- Nothing is registered. -/
def init (sockets : ℕ → Sock) : State := ⟨sockets, [], fun _ => false, [], [], [], false⟩

/-- `g_eventEntries[s] = e` -/
def insertEntry (e : Entry) (entries : List Entry) : List Entry :=
  entries.filter (fun e' => e'.fd < e.fd) ++ e :: entries.filter fun e' => e.fd < e'.fd

namespace State

/-- The result of `psxPollOne` for the socket, and its error. -/
def poll (s : State) (failing : List (ℕ × ℕ)) (fd : ℕ) : Option Ready × ℕ :=
  match failing.lookup fd with
  | some errno => (none, errno)
  | none => (some (psxPollOne (s.sockets fd)), 0)

/-- A round up to the release of the lock; `poll` fails for some descriptors. -/
def sample (s : State) (failing : List (ℕ × ℕ)) : State :=
  let entries := s.entries.map fun e =>
    e.sampled (s.sockets e.fd) (s.poll failing e.fd).1 (s.poll failing e.fd).2
  { s with
    entries
    signalled := fun ev =>
      s.signalled ev || entries.any fun e => decide (e.event = ev ∧ ev ≠ 0 ∧ e.pending ≠ ∅)
    notifications := s.entries.filterMap fun e =>
      e.notify (s.sockets e.fd) (s.poll failing e.fd).1 (s.poll failing e.fd).2
    afterRound := true }

/-- The messages of the next notification are posted. -/
def post (s : State) : State :=
  { s with
    posted := s.posted ++ s.notifications.take 1
    notifications := s.notifications.drop 1 }

/-- A socket changes. -/
def setSock (s : State) (fd : ℕ) (k : Sock) : State :=
  { s with
    sockets := Function.update s.sockets fd k
    afterRound := false }

/-- Data arrives, or connections. -/
def arrive (s : State) (fd n : ℕ) : State :=
  { s.setSock fd { s.sockets fd with unread := (s.sockets fd).unread + n } with
    entries := s.entries.map fun e =>
      if e.fd = fd ∧ (s.sockets fd).unread = 0 ∧ 0 < n then { e with told := false } else e }

/-- `WSAEventSelect`, when it succeeds -/
def eventSelect (s : State) (fd event : ℕ) (mask : Finset NetEvent) : State :=
  { s with
    entries :=
      if event = 0 then s.entries.filter fun e => e.fd ≠ fd
      else insertEntry ⟨fd, event, 0, 0, mask, ∅, ∅, fun _ => 0, ∅, false⟩ s.entries
    afterRound := false }

/-- `WSAAsyncSelect`, when it succeeds -/
def asyncSelect (s : State) (fd hwnd msg : ℕ) (mask : Finset NetEvent) : State :=
  { s with
    entries :=
      if hwnd = 0 ∨ mask = ∅ then s.entries.filter fun e => e.fd ≠ fd
      else insertEntry ⟨fd, 0, hwnd, msg, mask, ∅, ∅, fun _ => 0, ∅, false⟩ s.entries
    afterRound := false }

/-- `WSAEnumNetworkEvents` -/
def enumNetworkEvents (s : State) (fd event : ℕ) : State :=
  match s.entries.find? fun e => e.fd = fd with
  | none => s
  | some e =>
    { s with
      signalled := if event = 0 then s.signalled else Function.update s.signalled event false
      entries := s.entries.map fun e =>
        if e.fd = fd then
          { e with
            pending := ∅
            seen := ∅
            errors := fun _ => 0 }
        else e
      enums := s.enums ++ if e.event = 0 then [] else [(e.pending, e.seen)]
      afterRound := false }

/-- `closesocket` -/
def closesocket (s : State) (fd : ℕ) : State :=
  { s.setSock fd { s.sockets fd with opened := false } with
    entries := s.entries.filter fun e => e.fd ≠ fd
    notifications := s.notifications.map fun n =>
      if n.fd = fd then { n with closed := true } else n }

end State

/-- What happens. -/
inductive Act
  | arrive (fd n : ℕ)
  /-- The application reads or accepts. -/
  | recv (fd n : ℕ)
  /-- Hang-ups, errors and the other levels change. -/
  | level (fd : ℕ) (eof writable pri err hup : Bool) (sockErr : ℕ)
  /-- A new socket gets the descriptor. -/
  | socket (fd : ℕ) (listening : Bool)
  | eventSelect (fd event : ℕ) (mask : Finset NetEvent)
  | asyncSelect (fd hwnd msg : ℕ) (mask : Finset NetEvent)
  | enumNetworkEvents (fd event : ℕ)
  | closesocket (fd : ℕ)
  /-- The application sets or resets an event, or a wait resets it. -/
  | setEvent (event : ℕ) (signalled : Bool)
  | sample (failing : List (ℕ × ℕ))
  | post

/-- One step. -/
def next (s : State) : Act → Option State
  | .arrive fd n => if (s.sockets fd).opened then some (s.arrive fd n) else none
  | .recv fd n =>
    if n ≤ (s.sockets fd).unread then
      some (s.setSock fd { s.sockets fd with unread := (s.sockets fd).unread - n })
    else none
  | .level fd eof writable pri err hup sockErr =>
    some (s.setSock fd { s.sockets fd with eof, writable, pri, err, hup, sockErr })
  | .socket fd listening =>
    if (s.sockets fd).opened then none
    else some (s.setSock fd ⟨listening, 0, false, false, false, false, false, 0, true⟩)
  | .eventSelect fd event mask => some (s.eventSelect fd event mask)
  | .asyncSelect fd hwnd msg mask => some (s.asyncSelect fd hwnd msg mask)
  | .enumNetworkEvents fd event => some (s.enumNetworkEvents fd event)
  | .closesocket fd => some (s.closesocket fd)
  | .setEvent event signalled =>
    some { s with
      signalled := Function.update s.signalled event signalled
      afterRound := false }
  | .sample failing => if s.notifications = [] then some (s.sample failing) else none
  | .post => if s.notifications = [] then none else some s.post

/-- The program. -/
def lts : LTS State Act := ⟨next⟩

/-- **Nothing is lost.** -/
structure Sound (s : State) : Prop where
  /-- After a round an entry with pending conditions has its event set. -/
  signalled : s.afterRound = true → ∀ e ∈ s.entries, e.event ≠ 0 → e.pending ≠ ∅ →
    s.signalled e.event = true
  /-- An enumeration gives what the rounds have seen. -/
  enums : ∀ p ∈ s.enums, p.1 = p.2
  /-- A round reports what has come to an empty socket. -/
  told : s.afterRound = true → ∀ e ∈ s.entries, e.event = 0 →
    (s.sockets e.fd).readBit ∈ e.mask → 0 < (s.sockets e.fd).unread → e.told = true
  /-- The end is not reported before the data. -/
  close : ∀ n ∈ s.posted, .close ∈ n.bits → n.unreported = false
  /-- Nothing is posted for a closed socket. -/
  closed : ∀ n ∈ s.posted, n.closed = false

/-- `poll` tells what the socket is ready for: it has not been hung up, and `FD_ACCEPT` is selected
where connections come in. -/
def Entry.Distinct (e : Entry) (k : Sock) (r : Ready) : Prop :=
  r.read = true →
    (k.readBit ∈ e.mask → r.hangup = false) ∧
    (r.hangup = false → (.accept ∈ e.mask → k.listening = true) ∧
      (k.listening = true → .read ∈ e.mask → .accept ∈ e.mask))

/-- What a round can tell about an entry: all that it finds for an entry with an event, and what is
new and unread for one with a window. -/
def Entry.Orderly (e : Entry) (k : Sock) (r : Option Ready) : Prop :=
  if e.event = 0 then
    k.readBit ∈ e.mask → 0 < k.unread → e.told = false →
      r.isSome = true ∧ ∀ r' ∈ r, e.Distinct k r'
  else ∀ r' ∈ r, e.Distinct k r'

/-- **The steps that the pump can follow**: a round has seen a socket empty before data comes to it
again, it can tell what the sockets are ready for, and a socket is not closed before the messages of
a round are posted. -/
def Orderly (s : State) : Act → Prop
  | .arrive fd n => ∀ e ∈ s.entries, e.fd = fd → e.event = 0 → (s.sockets fd).unread = 0 → 0 < n →
      (s.sockets fd).readBit ∈ e.mask → (s.sockets fd).readBit ∉ e.reported
  | .sample failing => ∀ e ∈ s.entries, e.Orderly (s.sockets e.fd) (s.poll failing e.fd).1
  | .closesocket fd => ∀ n ∈ s.notifications, n.fd ≠ fd
  | _ => True

instance decidableDistinct (e : Entry) (k : Sock) (r : Ready) : Decidable (e.Distinct k r) :=
  inferInstanceAs (Decidable (_ → _))

instance Entry.decidableOrderly (e : Entry) (k : Sock) (r : Option Ready) :
    Decidable (e.Orderly k r) := by
  unfold Entry.Orderly
  infer_instance

instance decidableOrderly (s : State) (act : Act) : Decidable (Orderly s act) := by
  unfold Orderly
  split <;> infer_instance

/-! ### What a round finds -/

variable {s s' : State} {e : Entry} {k : Sock} {r : Ready}

theorem mem_ite_empty {c : Prop} [Decidable c] {bits : Finset NetEvent} {ev : NetEvent} :
    (ev ∈ if c then bits else ∅) ↔ c ∧ ev ∈ bits := by
  split_ifs with h <;> simp [h]

theorem mem_live_first (h : e.Distinct k r) {ev : NetEvent} (hmask : ev ∈ e.mask) :
    (ev ∈ (if r.hangup then {.close}
      else if r.read then if .accept ∈ e.mask then {.accept} else {.read} else ∅ :
        Finset NetEvent)) ↔
      r.hangup = true ∧ ev = .close ∨ r.read = true ∧ ev = k.readBit := by
  by_cases hread : r.read = true
  · obtain ⟨hhangup, hbit⟩ := h hread
    by_cases hup : r.hangup = true
    · -- nothing that is selected is left out
      have hne : ev ≠ k.readBit := by
        rintro rfl
        rw [hhangup hmask] at hup
        cases hup
      rw [if_pos hup]
      simp [hup, hne]
    · obtain ⟨haccept, hlisten⟩ := hbit (by simpa using hup)
      rw [if_neg hup, if_pos hread]
      cases hk : k.listening with
      | true =>
        by_cases hm : .accept ∈ e.mask
        · simp [hm, hup, hread, Sock.readBit, hk]
        · have hne : ev ≠ .read := by
            rintro rfl
            exact hm (hlisten hk hmask)
          have hne' : ev ≠ .accept := by
            rintro rfl
            exact hm hmask
          simp [hm, hup, Sock.readBit, hk, hne, hne']
      | false =>
        have hm : .accept ∉ e.mask := fun hm => by
          rw [haccept hm] at hk
          cases hk
        simp [hm, hup, hread, Sock.readBit, hk]
  · by_cases hup : r.hangup = true <;> simp [hread, hup]

/-- **A round finds the conditions that are selected.** -/
theorem live_eq (h : e.Distinct k r) : e.live (some r) = conditions k (some r) ∩ e.mask := by
  ext ev
  unfold Entry.live conditions
  simp only [Finset.mem_inter, Finset.mem_union]
  refine and_congr_left fun hmask => ?_
  rw [mem_live_first h hmask]
  simp only [mem_ite_empty, Finset.mem_singleton, Finset.mem_insert]
  constructor
  · rintro ((((h₁ | h₂) | ⟨⟨hw, _⟩, rfl⟩) | ⟨⟨hw, _⟩, rfl⟩) | ⟨⟨hx, _⟩, rfl⟩)
    · exact .inl (.inl (.inl h₁))
    · exact .inl (.inl (.inr h₂))
    · exact .inl (.inr ⟨hw, .inl rfl⟩)
    · exact .inl (.inr ⟨hw, .inr rfl⟩)
    · exact .inr ⟨hx, rfl⟩
  · rintro (((h₁ | h₂) | ⟨hw, rfl | rfl⟩) | ⟨hx, rfl⟩)
    · exact .inl (.inl (.inl (.inl h₁)))
    · exact .inl (.inl (.inl (.inr h₂)))
    · exact .inl (.inl (.inr ⟨⟨hw, hmask⟩, rfl⟩))
    · exact .inl (.inr ⟨⟨hw, hmask⟩, rfl⟩)
    · exact .inr ⟨⟨hx, hmask⟩, rfl⟩

theorem readBit_mem_live (h : e.Distinct k r) (hread : r.read = true)
    (hmask : k.readBit ∈ e.mask) : k.readBit ∈ e.live (some r) := by
  rw [live_eq h, Finset.mem_inter]
  refine ⟨?_, hmask⟩
  simp [conditions, hread]

theorem read_psxPollOne (h : 0 < k.unread) : (psxPollOne k).read = true := by
  simp [psxPollOne, h]

theorem poll_eq_some {failing : List (ℕ × ℕ)} {fd : ℕ} (h : (s.poll failing fd).1 = some r) :
    r = psxPollOne (s.sockets fd) := by
  unfold State.poll at h
  split at h
  · cases h
  · exact (Option.some.inj h).symm

/-- **What holds of an entry.** -/
structure Entry.Good (e : Entry) (k : Sock) : Prop where
  pending : e.event ≠ 0 → e.pending = e.seen
  window : e.event = 0 → e.hwnd ≠ 0
  /-- What has not been reported will be fresh. -/
  rearmed : e.event = 0 → k.readBit ∈ e.mask → 0 < k.unread → e.told = false →
    k.readBit ∉ e.reported

/-- **The invariant of orderly runs.** -/
structure Inv (s : State) : Prop where
  entries : ∀ e ∈ s.entries, e.Good (s.sockets e.fd)
  signalled : s.afterRound = true → ∀ e ∈ s.entries, e.event ≠ 0 → e.pending ≠ ∅ →
    s.signalled e.event = true
  enums : ∀ p ∈ s.enums, p.1 = p.2
  told : s.afterRound = true → ∀ e ∈ s.entries, e.event = 0 →
    (s.sockets e.fd).readBit ∈ e.mask → 0 < (s.sockets e.fd).unread → e.told = true
  notifications : ∀ n ∈ s.notifications,
    (.close ∈ n.bits → n.unreported = false) ∧ n.closed = false
  posted : ∀ n ∈ s.posted, (.close ∈ n.bits → n.unreported = false) ∧ n.closed = false

theorem Inv.sound (hI : Inv s) : Sound s where
  signalled := hI.signalled
  enums := hI.enums
  told := hI.told
  close n hn := (hI.posted n hn).1
  closed n hn := (hI.posted n hn).2

theorem inv_init (sockets : ℕ → Sock) : Inv (init sockets) where
  entries _ h := absurd h List.not_mem_nil
  signalled h := nomatch h
  enums _ h := absurd h List.not_mem_nil
  told h := nomatch h
  notifications _ h := absurd h List.not_mem_nil
  posted _ h := absurd h List.not_mem_nil

/-- What is selected and unread is reported after an orderly round. -/
theorem Entry.Good.told (hg : e.Good k) {errno : ℕ} {r : Option Ready}
    (hr : ∀ r' ∈ r, r' = psxPollOne k) (hO : e.Orderly k r) (hevent : e.event = 0)
    (hmask : k.readBit ∈ e.mask) (hunread : 0 < k.unread) :
    (e.sampled k r errno).told = true := by
  by_cases htold : e.told = true
  · simp [Entry.sampled, htold]
  · have htold' : e.told = false := by simpa using htold
    unfold Entry.Orderly at hO
    rw [if_pos hevent] at hO
    obtain ⟨hsome, hdistinct⟩ := hO hmask hunread htold'
    obtain ⟨r', rfl⟩ := Option.isSome_iff_exists.1 hsome
    have hread : r'.read = true := hr r' rfl ▸ read_psxPollOne hunread
    have hlive := readBit_mem_live (hdistinct r' rfl) hread hmask
    have hfresh : k.readBit ∈ e.fresh (some r') := by
      unfold Entry.fresh
      rw [if_pos ⟨hevent, hg.window hevent⟩]
      exact Finset.mem_sdiff.2 ⟨hlive, hg.rearmed hevent hmask hunread htold'⟩
    simp [Entry.sampled, hfresh]

theorem Entry.Good.sampled (hg : e.Good k) {errno : ℕ} {r : Option Ready}
    (hr : ∀ r' ∈ r, r' = psxPollOne k) (hO : e.Orderly k r) : (e.sampled k r errno).Good k where
  pending hevent := by
    have hlive : e.live r = conditions k r ∩ e.mask := by
      cases r with
      | none => rfl
      | some r' =>
        unfold Entry.Orderly at hO
        rw [if_neg (show ¬ e.event = 0 from hevent)] at hO
        exact live_eq (hO r' rfl)
    change e.pending ∪ e.live r = e.seen ∪ conditions k r ∩ e.mask
    rw [hg.pending hevent, hlive]
  window := hg.window
  rearmed hevent hmask hunread htold := by
    rw [hg.told hr hO hevent hmask hunread] at htold
    cases htold

/-- **The end is not reported before the data.** -/
theorem Entry.Good.notify (hg : e.Good k) {errno : ℕ} {r : Option Ready}
    (hr : ∀ r' ∈ r, r' = psxPollOne k) (hO : e.Orderly k r) {n : AsyncNotify}
    (hn : e.notify k r errno = some n) : n.unreported = false ∧ n.closed = false := by
  unfold Entry.notify at hn
  split_ifs at hn with hfresh
  cases hn
  refine ⟨?_, rfl⟩
  dsimp only
  by_contra hnot
  simp only [Bool.not_eq_false, Bool.and_eq_true, Bool.not_eq_true', decide_eq_true_eq] at hnot
  obtain ⟨⟨⟨hlisten, hmask⟩, hunread⟩, htold⟩ := hnot
  have hevent : e.event = 0 := by
    by_contra hevent
    exact hfresh (if_neg fun h => hevent h.1)
  have hbit : k.readBit = .read := by simp [Sock.readBit, hlisten]
  rw [hg.told hr hO hevent (hbit ▸ hmask) hunread] at htold
  cases htold

theorem Inv.sample (hI : Inv s) {failing : List (ℕ × ℕ)}
    (hO : ∀ e ∈ s.entries, e.Orderly (s.sockets e.fd) (s.poll failing e.fd).1) :
    Inv (s.sample failing) := by
  have hr : ∀ fd, ∀ r' ∈ (s.poll failing fd).1, r' = psxPollOne (s.sockets fd) :=
    fun fd r' h => poll_eq_some h
  refine
    { entries := fun e he => ?_
      signalled := fun _ e he hevent hpending => ?_
      enums := hI.enums
      told := fun _ e he hevent hmask hunread => ?_
      notifications := fun n hn => ?_
      posted := hI.posted }
  · obtain ⟨e₀, h₀, rfl⟩ := List.mem_map.1 he
    exact (hI.entries e₀ h₀).sampled (hr e₀.fd) (hO e₀ h₀)
  · change (s.signalled e.event || _) = true
    rw [Bool.or_eq_true, List.any_eq_true]
    exact .inr ⟨e, he, decide_eq_true ⟨rfl, hevent, hpending⟩⟩
  · obtain ⟨e₀, h₀, rfl⟩ := List.mem_map.1 he
    exact (hI.entries e₀ h₀).told (hr e₀.fd) (hO e₀ h₀) hevent hmask hunread
  · obtain ⟨e, he, hnotify⟩ := List.mem_filterMap.1 hn
    obtain ⟨hunreported, hclosed⟩ := (hI.entries e he).notify (hr e.fd) (hO e he) hnotify
    exact ⟨fun _ => hunreported, hclosed⟩

theorem Inv.post (hI : Inv s) : Inv s.post :=
  { hI with
    notifications := fun n hn => hI.notifications n (List.mem_of_mem_drop hn)
    posted := fun n hn => by
      rcases List.mem_append.1 hn with h | h
      · exact hI.posted n h
      · exact hI.notifications n (List.mem_of_mem_take h) }

/-! ### The other steps -/

theorem Inv.between (hI : Inv s) (hround : s'.afterRound = false)
    (hentries : ∀ e ∈ s'.entries, e.Good (s'.sockets e.fd)) (henums : s'.enums = s.enums)
    (hnotifications : s'.notifications = s.notifications) (hposted : s'.posted = s.posted) :
    Inv s' where
  entries := hentries
  signalled h := by
    rw [hround] at h
    cases h
  enums := henums ▸ hI.enums
  told h := by
    rw [hround] at h
    cases h
  notifications := hnotifications ▸ hI.notifications
  posted := hposted ▸ hI.posted

/-- The descriptor of another socket stands for what it stood for. -/
theorem Inv.good_setSock (hI : Inv s) {fd : ℕ} {k' : Sock}
    (h : ∀ e ∈ s.entries, e.fd = fd → e.Good k') :
    ∀ e ∈ s.entries, e.Good ((s.setSock fd k').sockets e.fd) := by
  intro e he
  change e.Good (Function.update s.sockets fd k' e.fd)
  by_cases hfd : e.fd = fd
  · rw [hfd, Function.update_self]
    exact h e he hfd
  · rw [Function.update_of_ne hfd]
    exact hI.entries e he

theorem Entry.Good.setSock {k' : Sock} (hg : e.Good k) (hbit : k'.listening = k.listening)
    (hunread : k'.unread ≤ k.unread) : e.Good k' where
  pending := hg.pending
  window := hg.window
  rearmed hevent hmask hpos htold := by
    have hbit' : k'.readBit = k.readBit := by simp only [Sock.readBit, hbit]
    rw [hbit'] at hmask ⊢
    exact hg.rearmed hevent hmask (hpos.trans_le hunread) htold

theorem Inv.arrive (hI : Inv s) {fd n : ℕ}
    (hO : ∀ e ∈ s.entries, e.fd = fd → e.event = 0 → (s.sockets fd).unread = 0 → 0 < n →
      (s.sockets fd).readBit ∈ e.mask → (s.sockets fd).readBit ∉ e.reported) :
    Inv (s.arrive fd n) := by
  refine hI.between rfl (fun e he => ?_) rfl rfl rfl
  obtain ⟨e₀, h₀, rfl⟩ := List.mem_map.1 he
  have hg := hI.entries e₀ h₀
  by_cases hfd : e₀.fd = fd
  · subst hfd
    have hsock : (s.arrive e₀.fd n).sockets e₀.fd =
        { s.sockets e₀.fd with unread := (s.sockets e₀.fd).unread + n } := Function.update_self ..
    by_cases hempty : (s.sockets e₀.fd).unread = 0 ∧ 0 < n
    · rw [if_pos ⟨rfl, hempty⟩, hsock]
      exact
        { pending := hg.pending
          window := hg.window
          rearmed := fun hevent hmask _ _ => hO e₀ h₀ rfl hevent hempty.1 hempty.2 hmask }
    · rw [if_neg fun h => hempty h.2, hsock]
      refine
        { pending := hg.pending
          window := hg.window
          rearmed := fun hevent hmask hpos htold => hg.rearmed hevent hmask ?_ htold }
      dsimp only at hpos
      omega
  · rw [if_neg fun h => hfd h.1]
    change e₀.Good (Function.update s.sockets fd _ e₀.fd)
    rw [Function.update_of_ne hfd]
    exact hg

theorem mem_insertEntry {entries : List Entry} {e e' : Entry} (h : e' ∈ insertEntry e entries) :
    e' = e ∨ e' ∈ entries := by
  rcases List.mem_append.1 h with h | h
  · exact .inr (List.mem_of_mem_filter h)
  · rcases List.mem_cons.1 h with h | h
    · exact .inl h
    · exact .inr (List.mem_of_mem_filter h)

theorem Inv.eventSelect (hI : Inv s) (fd event : ℕ) (mask : Finset NetEvent) :
    Inv (s.eventSelect fd event mask) := by
  refine hI.between rfl (fun e he => ?_) rfl rfl rfl
  unfold State.eventSelect at he
  dsimp only at he
  split_ifs at he with hevent
  · exact hI.entries e (List.mem_of_mem_filter he)
  · rcases mem_insertEntry he with rfl | he
    · exact ⟨fun _ => rfl, fun h => absurd h hevent, fun h => absurd h hevent⟩
    · exact hI.entries e he

theorem Inv.asyncSelect (hI : Inv s) (fd hwnd msg : ℕ) (mask : Finset NetEvent) :
    Inv (s.asyncSelect fd hwnd msg mask) := by
  refine hI.between rfl (fun e he => ?_) rfl rfl rfl
  unfold State.asyncSelect at he
  dsimp only at he
  split_ifs at he with hnone
  · exact hI.entries e (List.mem_of_mem_filter he)
  · rcases mem_insertEntry he with rfl | he
    · exact ⟨fun h => absurd rfl h, fun _ h => hnone (.inl h), fun _ _ _ _ => Finset.notMem_empty _⟩
    · exact hI.entries e he

theorem Inv.enumNetworkEvents (hI : Inv s) (fd event : ℕ) :
    Inv (s.enumNetworkEvents fd event) := by
  unfold State.enumNetworkEvents
  cases hfind : s.entries.find? fun e => e.fd = fd with
  | none => exact hI
  | some e =>
    have hg := hI.entries e (List.mem_of_find?_eq_some hfind)
    refine
      { entries := fun e' he' => ?_
        signalled := fun h => nomatch h
        enums := fun p hp => ?_
        told := fun h => nomatch h
        notifications := hI.notifications
        posted := hI.posted }
    · obtain ⟨e₀, h₀, rfl⟩ := List.mem_map.1 he'
      have hg' := hI.entries e₀ h₀
      by_cases hfd : e₀.fd = fd
      · rw [if_pos hfd]
        exact ⟨fun _ => rfl, hg'.window, hg'.rearmed⟩
      · rw [if_neg hfd]
        exact hg'
    · rcases List.mem_append.1 hp with h | h
      · exact hI.enums p h
      · split_ifs at h with hevent
        · exact absurd h List.not_mem_nil
        · rw [List.mem_singleton.1 h]
          exact hg.pending hevent

theorem Inv.closesocket (hI : Inv s) {fd : ℕ} (hO : ∀ n ∈ s.notifications, n.fd ≠ fd) :
    Inv (s.closesocket fd) := by
  have hsame : (s.closesocket fd).notifications = s.notifications :=
    (List.map_congr_left fun n hn => if_neg (hO n hn)).trans (List.map_id _)
  refine hI.between rfl (fun e he => ?_) rfl hsame rfl
  exact hI.good_setSock (fun e he hfd => (hI.entries e he).setSock (by rw [hfd]) (by rw [hfd])) e
    (List.mem_of_mem_filter he)

/-- **Orderly steps keep the invariant.** -/
theorem Inv.next {act : Act} (hI : Inv s) (hO : Orderly s act) (h : next s act = some s') :
    Inv s' := by
  cases act with
  | arrive fd n =>
    simp only [Winsock.next] at h
    split_ifs at h
    cases h
    exact hI.arrive hO
  | recv fd n =>
    simp only [Winsock.next] at h
    split_ifs at h
    cases h
    exact hI.between rfl (hI.good_setSock fun e he hfd =>
      (hI.entries e he).setSock (by rw [hfd]) (by rw [hfd]; exact Nat.sub_le _ _)) rfl rfl rfl
  | level fd eof writable pri err hup sockErr =>
    cases h
    exact hI.between rfl (hI.good_setSock fun e he hfd =>
      (hI.entries e he).setSock (by rw [hfd]) (by rw [hfd])) rfl rfl rfl
  | socket fd listening =>
    simp only [Winsock.next] at h
    split_ifs at h
    cases h
    refine hI.between rfl (hI.good_setSock fun e he hfd => ?_) rfl rfl rfl
    exact ⟨(hI.entries e he).pending, (hI.entries e he).window,
      fun _ _ hpos => absurd hpos (Nat.lt_irrefl 0)⟩
  | eventSelect fd event mask =>
    cases h
    exact hI.eventSelect fd event mask
  | asyncSelect fd hwnd msg mask =>
    cases h
    exact hI.asyncSelect fd hwnd msg mask
  | enumNetworkEvents fd event =>
    cases h
    exact hI.enumNetworkEvents fd event
  | closesocket fd =>
    cases h
    exact hI.closesocket hO
  | setEvent event signalled =>
    cases h
    exact hI.between rfl hI.entries rfl rfl rfl
  | sample failing =>
    simp only [Winsock.next] at h
    split_ifs at h
    cases h
    exact hI.sample hO
  | post =>
    simp only [Winsock.next] at h
    split_ifs at h
    cases h
    exact hI.post

/-- **Nothing is lost in orderly runs.** -/
theorem notified_of_orderly (sockets : ℕ → Sock) (acts : List Act)
    (h : lts.AllSteps Orderly (init sockets) acts) : lts.AllStates Sound (init sockets) acts :=
  LTS.allStates_of_allSteps (I := Inv) (fun _ hI => hI.sound) (fun _ _ _ hI hO hn => hI.next hO hn)
    (inv_init sockets) h

/-- A connected socket, and a listening one. -/
def sampleSockets (fd : ℕ) : Sock :=
  ⟨decide (fd = 4), 0, false, true, false, false, false, 0, true⟩

/-- Data that is read before more comes, with a round in between, and a connection. -/
def sampleActs : List Act :=
  [.asyncSelect 3 9 0x0401 {.read, .close}, .eventSelect 4 7 {.accept}, .arrive 3 10, .sample [],
    .post, .recv 3 10, .sample [], .arrive 3 5, .arrive 4 1, .sample [], .enumNetworkEvents 4 7,
    .post, .closesocket 3]

theorem notified_sample : lts.AllStates Sound (init sampleSockets) sampleActs :=
  notified_of_orderly sampleSockets sampleActs (by decide)

/-- **Data that arrives after the socket was read empty, but before the next round, is not
reported.** -/
theorem rearrival_lost :
    ∃ s, lts.run (init sampleSockets)
      [.asyncSelect 3 9 0x0401 {.read}, .arrive 3 10, .sample [], .post, .recv 3 10, .arrive 3 5,
        .sample []] = some s ∧
      s.notifications.length = 0 ∧ (s.sockets 3).unread = 5 ∧ ¬ Sound s := by
  refine ⟨_, rfl, rfl, rfl, fun h => ?_⟩
  exact absurd (h.told rfl _ List.mem_cons_self rfl (by decide) (by decide)) (by decide)

end Winsock

end Swinx
