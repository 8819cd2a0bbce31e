import Swinx.Data.SortedMap

/-!
# Select and poll on sockets

`select` and `WSAPoll` are both made of `psxSelect`, which merges what is asked of each descriptor,
asks `poll` for all of them and turns its answer back into three sets.

What `poll` reports of a descriptor is a parameter, with what its manual says of it as `Legal`.
`poll` itself does not fail here.  A write past the end of a set has no result: `undefined`.

* `reports_iff` — `select` is exact if and only if it loses no report and finds none twice, and
  `WSAPoll` is sound if and only if its entries fit and share no descriptor that they ask
  differently of.
* `hangup_lost` — an error of a socket that is only to be written is not found.
-/

namespace Swinx

namespace Select

/-- `FD_SETSIZE`, and the room of a `PsxFdSet` -/
def FD_SETSIZE : ℕ := 64

/-- `fd_set`, and `PsxFdSet` -/
structure FdSet where
  fds : List ℤ
  count_le : fds.length ≤ FD_SETSIZE

namespace FdSet

def empty : FdSet := ⟨[], Nat.zero_le _⟩

/-- `FD_SET` -/
def fdSet (s : FdSet) (fd : ℤ) : FdSet :=
  if fd ∈ s.fds then s
  else if h : s.fds.length < FD_SETSIZE then
    ⟨s.fds ++ [fd], by rw [List.length_append]; exact h⟩
  else s

/-- `set.fds[set.count++] = fd`, if there is room -/
def push (s : FdSet) (fd : ℤ) : Option FdSet :=
  if h : s.fds.length < FD_SETSIZE then
    some ⟨s.fds ++ [fd], by rw [List.length_append]; exact h⟩
  else none

end FdSet

/-- The sockets of a set that may be `NULL`. -/
def members (s : Option FdSet) : List ℤ := (s.map FdSet.fds).getD []

/-- What is asked of a descriptor. -/
structure Events where
  POLLIN : Bool
  POLLOUT : Bool
  POLLPRI : Bool

/-- What is reported of a descriptor. -/
structure Revents where
  POLLIN : Bool
  POLLPRI : Bool
  POLLOUT : Bool
  POLLERR : Bool
  POLLHUP : Bool
  POLLNVAL : Bool
deriving DecidableEq

def Revents.zero : Revents := ⟨false, false, false, false, false, false⟩

/-- `PsxReady` -/
structure Ready where
  PsxReadyRead : Bool
  PsxReadyWrite : Bool
  PsxReadyExcept : Bool

/-- `bits` of a descriptor -/
def Revents.ready (rev : Revents) : Ready where
  PsxReadyRead := rev.POLLIN || rev.POLLERR || rev.POLLHUP || rev.POLLNVAL
  PsxReadyWrite := rev.POLLOUT
  PsxReadyExcept := rev.POLLPRI || rev.POLLERR || rev.POLLNVAL

def Ready.any (b : Ready) : Bool := b.PsxReadyRead || b.PsxReadyWrite || b.PsxReadyExcept

/-- `wanted[fd] |= bit` -/
def want (bit : Events → Events) (m : SortedMap ℤ Events) (fd : ℤ) : SortedMap ℤ Events :=
  m.insert fd (bit ((m.find? fd).getD ⟨false, false, false⟩))

def Events.orIn (v : Events) : Events := { v with POLLIN := true }

def Events.orOut (v : Events) : Events := { v with POLLOUT := true }

def Events.orPri (v : Events) : Events := { v with POLLPRI := true }

/-- What `psxSelect` asks `poll` for. -/
def wanted (readSet writeSet exceptSet : Option FdSet) : SortedMap ℤ Events :=
  let m := (members readSet).foldl (want Events.orIn) SortedMap.empty
  let m := (members writeSet).foldl (want Events.orOut) m
  (members exceptSet).foldl (want Events.orPri) m

/-- Rounded up, and narrowed to an `int` -/
def timeoutMs (timeoutUsec : ℤ) : ℤ :=
  if 0 ≤ timeoutUsec then ((timeoutUsec + 999) / 1000).bmod 4294967296 else -1

/-- `ready[pfds[i].fd] = bits` -/
def readyMap (rev : ℤ → Revents) (pfds : List (ℤ × Events)) : SortedMap ℤ Ready :=
  pfds.foldl (fun m p => if (rev p.1).ready.any then m.insert p.1 (rev p.1).ready else m)
    SortedMap.empty

/-- The loops of `psxSelect` that leave in a set what is ready. -/
def FdSet.keep (ready : SortedMap ℤ Ready) (bit : Ready → Bool) (s : FdSet) : FdSet where
  fds := s.fds.filter fun fd => ((ready.find? fd).map bit).getD false
  count_le := (List.length_filter_le _ _).trans s.count_le

structure Sets where
  read : Option FdSet
  write : Option FdSet
  except : Option FdSet

/-- `psxSelect`, which fails if there is nothing to wait for -/
def psxSelect (rev : ℤ → Revents) (sets : Sets) (timeoutUsec : ℤ) : Option Sets :=
  let m := wanted sets.read sets.write sets.except
  if m.entries = [] then
    if timeoutUsec < 0 then none else some sets
  else
    let ready := readyMap rev m.entries
    some ⟨sets.read.map (FdSet.keep ready Ready.PsxReadyRead),
      sets.write.map (FdSet.keep ready Ready.PsxReadyWrite),
      sets.except.map (FdSet.keep ready Ready.PsxReadyExcept)⟩

/-- `struct timeval` -/
structure Timeval where
  tv_sec : ℤ
  tv_usec : ℤ

def usec (timeout : Option Timeval) : ℤ :=
  (timeout.map fun t => t.tv_sec * 1000000 + t.tv_usec).getD (-1)

/-- The set is emptied, and filled with `FD_SET`. -/
def refill (s : FdSet) : FdSet := s.fds.foldl FdSet.fdSet FdSet.empty

/-- `swinx_select`: its result, and the sets; `none` is `SOCKET_ERROR` -/
def swinxSelect (rev : ℤ → Revents) (sets : Sets) (timeout : Option Timeval) :
    Option (ℕ × Sets) := do
  let res ← psxSelect rev sets (usec timeout)
  let total := (members res.read).length + (members res.write).length +
    (members res.except).length
  some (total, ⟨res.read.map refill, res.write.map refill, res.except.map refill⟩)

/-- The bits of a `WSAPOLLFD`. -/
structure PollBits where
  POLLRDNORM : Bool
  POLLRDBAND : Bool
  POLLPRI : Bool
  POLLWRNORM : Bool
  POLLWRBAND : Bool
  POLLERR : Bool
  POLLHUP : Bool
  POLLNVAL : Bool
deriving DecidableEq

namespace PollBits

def zero : PollBits := ⟨false, false, false, false, false, false, false, false⟩

/-- `events & (POLLIN | POLLRDNORM | POLLRDBAND)` -/
def reads (b : PollBits) : Bool := b.POLLRDNORM || b.POLLRDBAND

/-- `events & (POLLOUT | POLLWRNORM | POLLWRBAND)` -/
def writes (b : PollBits) : Bool := b.POLLWRNORM || b.POLLWRBAND

end PollBits

/-- `WSAPOLLFD` -/
structure PollFd where
  fd : ℤ
  events : PollBits

def pushIf (b : Bool) (s : FdSet) (fd : ℤ) : Option FdSet := if b then s.push fd else some s

/-- The first loop of `WSAPoll` -/
def collect : List PollFd → FdSet → FdSet → FdSet → Option (FdSet × FdSet × FdSet)
  | [], readSet, writeSet, exceptSet => some (readSet, writeSet, exceptSet)
  | p :: ps, readSet, writeSet, exceptSet => do
    let readSet ← pushIf p.events.reads readSet p.fd
    let writeSet ← pushIf p.events.writes writeSet p.fd
    let exceptSet ← pushIf p.events.POLLPRI exceptSet p.fd
    collect ps readSet writeSet exceptSet

inductive Outcome
  /-- A set was written outside of its array. -/
  | undefined
  /-- `SOCKET_ERROR` -/
  | failed
  | done (readyCount : ℕ) (revents : List PollBits)

/-- `revents` of an entry -/
def reventsOf (res : Sets) (p : PollFd) : PollBits :=
  { PollBits.zero with
    POLLRDNORM := decide (p.fd ∈ members res.read)
    POLLWRNORM := decide (p.fd ∈ members res.write)
    POLLPRI := decide (p.fd ∈ members res.except) }

/-- The second loop of `WSAPoll` -/
def report (res : Sets) (fdArray : List PollFd) : Outcome :=
  let revents := fdArray.map (reventsOf res)
  .done (revents.countP (· ≠ PollBits.zero)) revents

/-- The timeout of `WSAPoll` in microseconds -/
def pollUsec (timeout : ℤ) : ℤ := if timeout < 0 then -1 else timeout * 1000

/-- `WSAPoll` -/
def wsaPoll (rev : ℤ → Revents) (fdArray : List PollFd) (timeout : ℤ) : Outcome :=
  if fdArray = [] then .failed
  else
    match collect fdArray FdSet.empty FdSet.empty FdSet.empty with
    | none => .undefined
    | some (readSet, writeSet, exceptSet) =>
      match psxSelect rev ⟨some readSet, some writeSet, some exceptSet⟩ (pollUsec timeout) with
      | none => .failed
      | some res => report res fdArray

/-! ### What callers rely on -/

/-- What the manual of `poll` says: a condition is reported if it was asked for, an error always,
and without a timeout there is a report. -/
structure Legal (rev : ℤ → Revents) (sets : Sets) (timeoutUsec : ℤ) : Prop where
  asked : ∀ e ∈ (wanted sets.read sets.write sets.except).entries,
    ((rev e.1).POLLIN = true → e.2.POLLIN = true) ∧
    ((rev e.1).POLLOUT = true → e.2.POLLOUT = true) ∧
    ((rev e.1).POLLPRI = true → e.2.POLLPRI = true)
  reports : timeoutMs timeoutUsec < 0 → (wanted sets.read sets.write sets.except).entries ≠ [] →
    ∃ e ∈ (wanted sets.read sets.write sets.except).entries, rev e.1 ≠ Revents.zero

/-- A socket of one of the sets. -/
def Requested (sets : Sets) (fd : ℤ) : Prop :=
  fd ∈ members sets.read ∨ fd ∈ members sets.write ∨ fd ∈ members sets.except

/-- **What `select` owes its caller** -/
structure Exact (rev : ℤ → Revents) (sets : Sets) (timeoutUsec : ℤ) (total : ℕ) (res : Sets) :
    Prop where
  /-- The result counts all. -/
  size : total = (members res.read).length + (members res.write).length +
    (members res.except).length
  read : (members res.read).Sublist (members sets.read)
  write : (members res.write).Sublist (members sets.write)
  except : (members res.except).Sublist (members sets.except)
  /-- What holds is reported. -/
  reported : ∀ fd, Requested sets fd → rev fd ≠ Revents.zero → Requested res fd
  infinite : timeoutUsec < 0 → total ≠ 0

/-- A socket that is not read is found all the same: it is writable, or in the third set with a
report that counts there. -/
def Noticed (rev : Revents) (excepted : Prop) : Prop :=
  rev.POLLOUT = true ∨
    excepted ∧ (rev.POLLPRI = true ∨ rev.POLLERR = true ∨ rev.POLLNVAL = true)

/-- **When `select` is exact** -/
structure Plain (rev : ℤ → Revents) (sets : Sets) : Prop where
  read : ((members sets.read).filter fun fd => (rev fd).ready.PsxReadyRead).Nodup
  write : ((members sets.write).filter fun fd => (rev fd).ready.PsxReadyWrite).Nodup
  except : ((members sets.except).filter fun fd => (rev fd).ready.PsxReadyExcept).Nodup
  noticed : ∀ fd, Requested sets fd → fd ∉ members sets.read → rev fd ≠ Revents.zero →
    Noticed (rev fd) (fd ∈ members sets.except)

/-- No condition but those asked for, errors apart. -/
structure Within (revents events : PollBits) : Prop where
  rdnorm : revents.POLLRDNORM = true → events.POLLRDNORM = true
  rdband : revents.POLLRDBAND = true → events.POLLRDBAND = true
  pri : revents.POLLPRI = true → events.POLLPRI = true
  wrnorm : revents.POLLWRNORM = true → events.POLLWRNORM = true
  wrband : revents.POLLWRBAND = true → events.POLLWRBAND = true

/-- **What `WSAPoll` owes its caller** -/
def Sound (fdArray : List PollFd) : Outcome → Prop
  | .undefined => False
  | .failed => True
  | .done readyCount revents =>
    List.Forall₂ (fun b p => Within b p.events) revents fdArray ∧
      readyCount = revents.countP (· ≠ PollBits.zero)

/-- Some entry asks of this descriptor what `asks` says. -/
def AskedOf (fdArray : List PollFd) (asks : PollBits → Bool) (fd : ℤ) : Prop :=
  ∃ q ∈ fdArray, q.fd = fd ∧ asks q.events = true

/-- **When `WSAPoll` is sound** -/
structure Fits (rev : ℤ → Revents) (fdArray : List PollFd) : Prop where
  reads : fdArray.countP (fun p => p.events.reads) ≤ FD_SETSIZE
  writes : fdArray.countP (fun p => p.events.writes) ≤ FD_SETSIZE
  pris : fdArray.countP (fun p => p.events.POLLPRI) ≤ FD_SETSIZE
  read : ∀ p ∈ fdArray, AskedOf fdArray PollBits.reads p.fd →
    (rev p.fd).ready.PsxReadyRead = true → p.events.POLLRDNORM = true
  write : ∀ p ∈ fdArray, AskedOf fdArray PollBits.writes p.fd →
    (rev p.fd).ready.PsxReadyWrite = true → p.events.POLLWRNORM = true
  except : ∀ p ∈ fdArray, AskedOf fdArray PollBits.POLLPRI p.fd →
    (rev p.fd).ready.PsxReadyExcept = true → p.events.POLLPRI = true

/-! ### What is asked of `poll` -/

@[simp] theorem members_some (s : FdSet) : members (some s) = s.fds := rfl

theorem find?_foldl_want (bit : Events → Events) (hbit : ∀ v, bit (bit v) = bit v) (fd : ℤ)
    (fds : List ℤ) (m : SortedMap ℤ Events) :
    (fds.foldl (want bit) m).find? fd =
      if fd ∈ fds then some (bit ((m.find? fd).getD ⟨false, false, false⟩)) else m.find? fd := by
  induction fds generalizing m with
  | nil => simp only [List.foldl_nil, List.not_mem_nil, if_false]
  | cons a fds ih =>
    rw [List.foldl_cons, ih, want, SortedMap.find?_insert]
    by_cases ha : fd = a
    · subst ha
      simp only [if_true, Option.getD_some, hbit, List.mem_cons_self, ite_self]
    · simp only [ha, if_false, List.mem_cons, false_or]

theorem find?_wanted (sets : Sets) (fd : ℤ) :
    (wanted sets.read sets.write sets.except).find? fd =
      if fd ∈ members sets.read ∨ fd ∈ members sets.write ∨ fd ∈ members sets.except then
        some ⟨decide (fd ∈ members sets.read), decide (fd ∈ members sets.write),
          decide (fd ∈ members sets.except)⟩
      else none := by
  unfold wanted
  simp only
  rw [find?_foldl_want Events.orPri fun _ => rfl,
    find?_foldl_want Events.orOut fun _ => rfl,
    find?_foldl_want Events.orIn fun _ => rfl, SortedMap.find?_empty]
  by_cases hr : fd ∈ members sets.read <;> by_cases hw : fd ∈ members sets.write <;>
    by_cases he : fd ∈ members sets.except <;>
    simp [hr, hw, he, Events.orIn, Events.orOut, Events.orPri]

theorem mem_wanted {sets : Sets} {e : ℤ × Events}
    (h : e ∈ (wanted sets.read sets.write sets.except).entries) :
    Requested sets e.1 ∧ e.2 = ⟨decide (e.1 ∈ members sets.read),
      decide (e.1 ∈ members sets.write), decide (e.1 ∈ members sets.except)⟩ := by
  have hfind := SortedMap.mem_entries_iff.1 (show (e.1, e.2) ∈ _ from h)
  rw [find?_wanted] at hfind
  split_ifs at hfind with hreq
  exact ⟨hreq, (Option.some.inj hfind).symm⟩

theorem mem_keys_wanted {sets : Sets} {fd : ℤ} :
    fd ∈ (wanted sets.read sets.write sets.except).entries.map Prod.fst ↔ Requested sets fd := by
  constructor
  · intro h
    obtain ⟨e, he, rfl⟩ := List.mem_map.1 h
    exact (mem_wanted he).1
  · intro h
    refine List.mem_map.2 ⟨(fd, ⟨decide (fd ∈ members sets.read),
      decide (fd ∈ members sets.write), decide (fd ∈ members sets.except)⟩),
      SortedMap.mem_entries_iff.2 ?_, rfl⟩
    rw [find?_wanted]
    exact if_pos h

theorem wanted_eq_nil_iff {sets : Sets} :
    (wanted sets.read sets.write sets.except).entries = [] ↔ ∀ fd, ¬ Requested sets fd := by
  constructor
  · intro h fd hfd
    have hmem := mem_keys_wanted.2 hfd
    rw [h] at hmem
    exact List.not_mem_nil hmem
  · intro h
    refine List.eq_nil_iff_forall_not_mem.2 fun e he => ?_
    exact h e.1 (mem_wanted he).1

/-! ### What `psxSelect` leaves -/

theorem Ready.any_of {b : Ready} (h : b.PsxReadyRead = true ∨ b.PsxReadyWrite = true ∨
    b.PsxReadyExcept = true) : b.any = true := by
  unfold Ready.any
  rcases h with h | h | h <;> simp [h]

theorem find?_foldl_ready (rev : ℤ → Revents) (fd : ℤ) (pfds : List (ℤ × Events))
    (m : SortedMap ℤ Ready) :
    (pfds.foldl (fun m p => if (rev p.1).ready.any then m.insert p.1 (rev p.1).ready else m)
        m).find? fd =
      if fd ∈ pfds.map Prod.fst ∧ (rev fd).ready.any = true then some (rev fd).ready
      else m.find? fd := by
  induction pfds generalizing m with
  | nil => simp only [List.foldl_nil, List.map_nil, List.not_mem_nil, false_and, if_false]
  | cons p pfds ih =>
    rw [List.foldl_cons, ih, List.map_cons]
    by_cases hfd : fd = p.1
    · subst hfd
      by_cases hany : (rev p.1).ready.any = true <;> simp [hany]
    · have hnot : (if (rev p.1).ready.any then m.insert p.1 (rev p.1).ready else m).find? fd =
          m.find? fd := by
        split_ifs
        · exact SortedMap.find?_insert_of_ne hfd
        · rfl
      rw [hnot]
      simp only [List.mem_cons, hfd, false_or]

/-- **A set keeps what is ready.** -/
theorem keep_fds {rev : ℤ → Revents} {pfds : List (ℤ × Events)} {bit : Ready → Bool}
    (hbit : ∀ b : Ready, bit b = true → b.any = true) {s : FdSet}
    (hs : ∀ fd ∈ s.fds, fd ∈ pfds.map Prod.fst) :
    (s.keep (readyMap rev pfds) bit).fds = s.fds.filter fun fd => bit (rev fd).ready := by
  refine List.filter_congr fun fd hfd => ?_
  rw [readyMap, find?_foldl_ready]
  by_cases hany : (rev fd).ready.any = true
  · rw [if_pos ⟨hs fd hfd, hany⟩]
    rfl
  · rw [if_neg fun h => hany h.2]
    exact (Bool.not_eq_true _ ▸ fun h => hany (hbit _ h) : bit (rev fd).ready = false).symm

theorem members_keep {rev : ℤ → Revents} {pfds : List (ℤ × Events)} {bit : Ready → Bool}
    (hbit : ∀ b : Ready, bit b = true → b.any = true) {s : Option FdSet}
    (hs : ∀ fd ∈ members s, fd ∈ pfds.map Prod.fst) :
    members (s.map (FdSet.keep (readyMap rev pfds) bit)) =
      (members s).filter fun fd => bit (rev fd).ready := by
  cases s with
  | none => rfl
  | some s => exact keep_fds hbit hs

theorem psxSelect_eq_none_iff (rev : ℤ → Revents) (sets : Sets) (timeoutUsec : ℤ) :
    psxSelect rev sets timeoutUsec = none ↔
      (∀ fd, ¬ Requested sets fd) ∧ timeoutUsec < 0 := by
  unfold psxSelect
  simp only
  rw [← wanted_eq_nil_iff]
  split_ifs with hnil htime <;> simp [*]

/-- **What `psxSelect` leaves in the sets.** -/
theorem psxSelect_spec {rev : ℤ → Revents} {sets res : Sets} {timeoutUsec : ℤ}
    (h : psxSelect rev sets timeoutUsec = some res) :
    members res.read =
        ((members sets.read).filter fun fd => (rev fd).ready.PsxReadyRead) ∧
      members res.write =
        ((members sets.write).filter fun fd => (rev fd).ready.PsxReadyWrite) ∧
      members res.except =
        ((members sets.except).filter fun fd => (rev fd).ready.PsxReadyExcept) := by
  unfold psxSelect at h
  simp only at h
  split_ifs at h with hnil htime
  · -- Nothing is asked for, so the sets have no members.
    obtain rfl := Option.some.inj h
    have hnone := wanted_eq_nil_iff.1 hnil
    have hr : members sets.read = [] :=
      List.eq_nil_iff_forall_not_mem.2 fun fd hfd => hnone fd (.inl hfd)
    have hw : members sets.write = [] :=
      List.eq_nil_iff_forall_not_mem.2 fun fd hfd => hnone fd (.inr (.inl hfd))
    have he : members sets.except = [] :=
      List.eq_nil_iff_forall_not_mem.2 fun fd hfd => hnone fd (.inr (.inr hfd))
    simp only [hr, hw, he, List.filter_nil, and_self]
  · obtain rfl := Option.some.inj h
    refine ⟨members_keep ?_ ?_, members_keep ?_ ?_, members_keep ?_ ?_⟩
    · exact fun b hb => Ready.any_of (.inl hb)
    · exact fun fd hfd => mem_keys_wanted.2 (.inl hfd)
    · exact fun b hb => Ready.any_of (.inr (.inl hb))
    · exact fun fd hfd => mem_keys_wanted.2 (.inr (.inl hfd))
    · exact fun b hb => Ready.any_of (.inr (.inr hb))
    · exact fun fd hfd => mem_keys_wanted.2 (.inr (.inr hfd))

/-! ### Filling a set -/

theorem fdSet_fds_of_lt {s : FdSet} (fd : ℤ) (h : s.fds.length < FD_SETSIZE) :
    (s.fdSet fd).fds = if fd ∈ s.fds then s.fds else s.fds ++ [fd] := by
  unfold FdSet.fdSet
  split_ifs <;> rfl

/-- `refill` of a list of at most 64 sockets drops repetitions. -/
theorem foldl_fdSet (fds : List ℤ) (h : fds.length ≤ FD_SETSIZE) :
    (fds.foldl FdSet.fdSet FdSet.empty).fds.Sublist fds ∧
      (fds.foldl FdSet.fdSet FdSet.empty).fds.Nodup ∧
      ∀ fd, fd ∈ (fds.foldl FdSet.fdSet FdSet.empty).fds ↔ fd ∈ fds := by
  induction fds using List.reverseRecOn with
  | nil => exact ⟨List.Sublist.refl _, List.nodup_nil, fun _ => Iff.rfl⟩
  | append_singleton fds a ih =>
    rw [List.length_append, List.length_singleton] at h
    obtain ⟨hsub, hnodup, hmem⟩ := ih (by omega)
    have hlt := Nat.lt_of_le_of_lt hsub.length_le (Nat.lt_of_succ_le h)
    rw [List.foldl_append, List.foldl_cons, List.foldl_nil, fdSet_fds_of_lt a hlt]
    split_ifs with ha
    · refine ⟨hsub.trans (List.sublist_append_left _ _), hnodup, fun fd => ?_⟩
      rw [hmem, List.mem_append, List.mem_singleton]
      exact ⟨.inl, fun h => h.elim id fun h => h ▸ (hmem a).1 ha⟩
    · refine ⟨hsub.append (List.Sublist.refl _), ?_, fun fd => ?_⟩
      · exact List.nodup_append.2 ⟨hnodup, List.nodup_singleton a, fun x hx y hy hxy =>
          ha (List.mem_singleton.1 hy ▸ hxy ▸ hx)⟩
      · rw [List.mem_append, hmem, List.mem_append]

theorem refill_sublist (s : FdSet) : (refill s).fds.Sublist s.fds :=
  (foldl_fdSet s.fds s.count_le).1

@[simp] theorem mem_refill {s : FdSet} {fd : ℤ} : fd ∈ (refill s).fds ↔ fd ∈ s.fds :=
  (foldl_fdSet s.fds s.count_le).2.2 fd

theorem length_refill_eq_iff (s : FdSet) :
    (refill s).fds.length = s.fds.length ↔ s.fds.Nodup := by
  obtain ⟨hsub, hnodup, hmem⟩ := foldl_fdSet s.fds s.count_le
  constructor
  · intro h
    exact hsub.eq_of_length h ▸ hnodup
  · intro h
    exact ((List.perm_ext_iff_of_nodup hnodup h).2 hmem).length_eq

theorem members_refill_sublist (s : Option FdSet) :
    (members (s.map refill)).Sublist (members s) := by
  cases s with
  | none => exact List.Sublist.refl _
  | some s => exact refill_sublist s

theorem mem_members_refill {s : Option FdSet} {fd : ℤ} :
    fd ∈ members (s.map refill) ↔ fd ∈ members s := by
  cases s with
  | none => exact Iff.rfl
  | some s => exact mem_refill

theorem length_members_refill_eq_iff (s : Option FdSet) :
    (members (s.map refill)).length = (members s).length ↔ (members s).Nodup := by
  cases s with
  | none => exact iff_of_true rfl List.nodup_nil
  | some s => exact length_refill_eq_iff s

/-! ### `select` -/

theorem swinxSelect_eq_none_iff {rev : ℤ → Revents} {sets : Sets} {timeout : Option Timeval} :
    swinxSelect rev sets timeout = none ↔
      (∀ fd, ¬ Requested sets fd) ∧ usec timeout < 0 := by
  rw [← psxSelect_eq_none_iff rev]
  unfold swinxSelect
  cases psxSelect rev sets (usec timeout) with
  | none => exact iff_of_true rfl rfl
  | some res => simp

theorem swinxSelect_spec {rev : ℤ → Revents} {sets res : Sets} {timeout : Option Timeval}
    {total : ℕ} (h : swinxSelect rev sets timeout = some (total, res)) :
    ∃ left, psxSelect rev sets (usec timeout) = some left ∧
      total = (members left.read).length + (members left.write).length +
        (members left.except).length ∧
      res = ⟨left.read.map refill, left.write.map refill, left.except.map refill⟩ := by
  unfold swinxSelect at h
  cases hleft : psxSelect rev sets (usec timeout) with
  | none =>
    rw [hleft] at h
    exact absurd h (by simp)
  | some left =>
    rw [hleft] at h
    obtain ⟨htotal, hres⟩ := Prod.mk.inj (Option.some.inj h)
    exact ⟨left, rfl, htotal.symm, hres.symm⟩

/-- Without a timeout `poll` has a report of one of the sockets. -/
theorem Legal.exists_report {rev : ℤ → Revents} {sets : Sets} {timeoutUsec : ℤ}
    (h : Legal rev sets timeoutUsec) (htime : timeoutUsec < 0) {fd : ℤ}
    (hfd : Requested sets fd) : ∃ fd', Requested sets fd' ∧ rev fd' ≠ Revents.zero := by
  have hms : timeoutMs timeoutUsec < 0 := by
    unfold timeoutMs
    rw [if_neg (not_le.2 htime)]
    decide
  obtain ⟨e, he, hrev⟩ := h.reports hms fun hnil => wanted_eq_nil_iff.1 hnil fd hfd
  exact ⟨e.1, (mem_wanted he).1, hrev⟩

theorem Legal.mem {rev : ℤ → Revents} {sets : Sets} {timeoutUsec : ℤ}
    (h : Legal rev sets timeoutUsec) {fd : ℤ} (hfd : Requested sets fd) :
    ((rev fd).POLLIN = true → fd ∈ members sets.read) ∧
      ((rev fd).POLLOUT = true → fd ∈ members sets.write) ∧
      ((rev fd).POLLPRI = true → fd ∈ members sets.except) := by
  obtain ⟨e, he, rfl⟩ := List.mem_map.1 (mem_keys_wanted.2 hfd)
  have hasked := h.asked e he
  rw [(mem_wanted he).2] at hasked
  simpa only [decide_eq_true_eq] using hasked

/-- **A report is found** if and only if its socket is read or the report is noticed. -/
theorem found_iff {rev : ℤ → Revents} {sets : Sets} {timeoutUsec : ℤ}
    (h : Legal rev sets timeoutUsec) {fd : ℤ} (hfd : Requested sets fd)
    (hrev : rev fd ≠ Revents.zero) :
    ((fd ∈ members sets.read ∧ (rev fd).ready.PsxReadyRead = true) ∨
        (fd ∈ members sets.write ∧ (rev fd).ready.PsxReadyWrite = true) ∨
        (fd ∈ members sets.except ∧ (rev fd).ready.PsxReadyExcept = true)) ↔
      (fd ∉ members sets.read → Noticed (rev fd) (fd ∈ members sets.except)) := by
  obtain ⟨hin, hout, hpri⟩ := h.mem hfd
  unfold Noticed Revents.ready
  simp only [Bool.or_eq_true]
  constructor
  · rintro (⟨hr, -⟩ | ⟨-, hw⟩ | ⟨he, hbits⟩) hread
    · exact absurd hr hread
    · exact .inl hw
    · exact .inr ⟨he, or_assoc.1 hbits⟩
  · intro hnot
    by_cases hread : fd ∈ members sets.read
    · -- Of a socket that is read, only `POLLOUT` and `POLLPRI` go elsewhere.
      by_cases hbits : (((rev fd).POLLIN = true ∨ (rev fd).POLLERR = true) ∨
          (rev fd).POLLHUP = true) ∨ (rev fd).POLLNVAL = true
      · exact .inl ⟨hread, hbits⟩
      · by_cases hw : (rev fd).POLLOUT = true
        · exact .inr (.inl ⟨hout hw, hw⟩)
        · by_cases hp : (rev fd).POLLPRI = true
          · exact .inr (.inr ⟨hpri hp, .inl (.inl hp)⟩)
          · simp only [not_or, Bool.not_eq_true] at hbits hw hp
            refine absurd ?_ hrev
            obtain ⟨⟨⟨h1, h2⟩, h3⟩, h4⟩ := hbits
            cases hrev' : rev fd
            simp_all [Revents.zero]
    · rcases hnot hread with hw | ⟨he, hbits⟩
      · exact .inr (.inl ⟨hout hw, hw⟩)
      · exact .inr (.inr ⟨he, or_assoc.2 hbits⟩)

/-- **`select` is exact** if and only if it loses no report and finds none twice. -/
theorem exact_iff_plain {rev : ℤ → Revents} {sets res : Sets} {timeout : Option Timeval}
    {total : ℕ} (hlegal : Legal rev sets (usec timeout))
    (h : swinxSelect rev sets timeout = some (total, res)) :
    Exact rev sets (usec timeout) total res ↔ Plain rev sets := by
  obtain ⟨left, hleft, rfl, rfl⟩ := swinxSelect_spec h
  obtain ⟨hr, hw, he⟩ := psxSelect_spec hleft
  have hrle := (members_refill_sublist left.read).length_le
  have hwle := (members_refill_sublist left.write).length_le
  have hele := (members_refill_sublist left.except).length_le
  have hrequested : ∀ fd, Requested ⟨left.read.map refill, left.write.map refill,
      left.except.map refill⟩ fd ↔
      (fd ∈ members sets.read ∧ (rev fd).ready.PsxReadyRead = true) ∨
        (fd ∈ members sets.write ∧ (rev fd).ready.PsxReadyWrite = true) ∨
        (fd ∈ members sets.except ∧ (rev fd).ready.PsxReadyExcept = true) := by
    intro fd
    unfold Requested
    simp only [mem_members_refill, hr, hw, he, List.mem_filter]
  constructor
  · intro hexact
    have hsize := hexact.size
    simp only at hsize
    refine ⟨?_, ?_, ?_, fun fd hfd hread hrev => ?_⟩
    · exact hr ▸ (length_members_refill_eq_iff left.read).1 (by omega)
    · exact hw ▸ (length_members_refill_eq_iff left.write).1 (by omega)
    · exact he ▸ (length_members_refill_eq_iff left.except).1 (by omega)
    · exact (found_iff hlegal hfd hrev).1 ((hrequested fd).1 (hexact.reported fd hfd hrev)) hread
  · intro hplain
    have hreported : ∀ fd, Requested sets fd → rev fd ≠ Revents.zero →
        Requested ⟨left.read.map refill, left.write.map refill, left.except.map refill⟩ fd :=
      fun fd hfd hrev => (hrequested fd).2 <|
        (found_iff hlegal hfd hrev).2 fun hread => hplain.noticed fd hfd hread hrev
    have hrlen := (length_members_refill_eq_iff left.read).2 (hr ▸ hplain.read)
    have hwlen := (length_members_refill_eq_iff left.write).2 (hw ▸ hplain.write)
    have helen := (length_members_refill_eq_iff left.except).2 (he ▸ hplain.except)
    refine ⟨?_, ?_, ?_, ?_, hreported, fun htime hzero => ?_⟩
    · simp only [hrlen, hwlen, helen]
    · exact (members_refill_sublist left.read).trans (hr ▸ List.filter_sublist)
    · exact (members_refill_sublist left.write).trans (hw ▸ List.filter_sublist)
    · exact (members_refill_sublist left.except).trans (he ▸ List.filter_sublist)
    · -- Something is asked for, so `poll` has a report, which is in one of the sets.
      have hsome : ∃ fd, Requested sets fd := by
        by_contra hnone
        have hfail : psxSelect rev sets (usec timeout) = none :=
          (psxSelect_eq_none_iff rev sets _).2 ⟨not_exists.1 hnone, htime⟩
        rw [hleft] at hfail
        exact Option.some_ne_none _ hfail
      obtain ⟨fd, hfd⟩ := hsome
      obtain ⟨fd', hfd', hrev⟩ := hlegal.exists_report htime hfd
      rcases hreported fd' hfd' hrev with hmem | hmem | hmem <;>
        have := List.length_pos_of_mem (mem_members_refill.1 hmem) <;> omega

/-! ### `WSAPoll` -/

theorem pushIf_eq_none_iff {b : Bool} {s : FdSet} {fd : ℤ} :
    pushIf b s fd = none ↔ b = true ∧ FD_SETSIZE ≤ s.fds.length := by
  unfold pushIf FdSet.push
  split_ifs with hb hlt <;> simp [hb] <;> omega

theorem pushIf_fds {b : Bool} {s s' : FdSet} {fd : ℤ} (h : pushIf b s fd = some s') :
    s'.fds = s.fds ++ (if b then [fd] else []) := by
  unfold pushIf FdSet.push at h
  split_ifs at h with hb hlt
  · obtain rfl := Option.some.inj h
    simp only [hb, if_true]
  · obtain rfl := Option.some.inj h
    simp only [hb, Bool.false_eq_true, if_false, List.append_nil]

theorem collect_cons {p : PollFd} {ps : List PollFd} {r w e : FdSet} :
    collect (p :: ps) r w e = (pushIf p.events.reads r p.fd).bind fun r' =>
      (pushIf p.events.writes w p.fd).bind fun w' =>
        (pushIf p.events.POLLPRI e p.fd).bind fun e' => collect ps r' w' e' := rfl

/-- The descriptors of the entries that ask for something. -/
def asking (asks : PollBits → Bool) (ps : List PollFd) : List ℤ :=
  (ps.filter fun p => asks p.events).map PollFd.fd

theorem asking_cons (asks : PollBits → Bool) (p : PollFd) (ps : List PollFd) :
    asking asks (p :: ps) = (if asks p.events then [p.fd] else []) ++ asking asks ps := by
  unfold asking
  rw [List.filter_cons]
  split_ifs <;> rfl

theorem length_asking (asks : PollBits → Bool) (ps : List PollFd) :
    (asking asks ps).length = ps.countP fun p => asks p.events := by
  rw [asking, List.length_map, List.countP_eq_length_filter]

theorem mem_asking {asks : PollBits → Bool} {ps : List PollFd} {fd : ℤ} :
    fd ∈ asking asks ps ↔ AskedOf ps asks fd := by
  unfold asking AskedOf
  simp only [List.mem_map, List.mem_filter]
  exact ⟨fun ⟨q, ⟨hq, hasks⟩, hfd⟩ => ⟨q, hq, hfd, hasks⟩,
    fun ⟨q, hq, hfd, hasks⟩ => ⟨q, ⟨hq, hasks⟩, hfd⟩⟩

/-- **The sets of `WSAPoll`** are the descriptors of its entries, in their order. -/
theorem collect_spec {ps : List PollFd} {r w e r' w' e' : FdSet}
    (h : collect ps r w e = some (r', w', e')) :
    r'.fds = r.fds ++ asking PollBits.reads ps ∧ w'.fds = w.fds ++ asking PollBits.writes ps ∧
      e'.fds = e.fds ++ asking PollBits.POLLPRI ps := by
  induction ps generalizing r w e with
  | nil =>
    obtain ⟨rfl, hwe⟩ := Prod.mk.inj (Option.some.inj h)
    obtain ⟨rfl, rfl⟩ := Prod.mk.inj hwe
    simp only [asking, List.filter_nil, List.map_nil, List.append_nil, and_self]
  | cons p ps ih =>
    rw [collect_cons] at h
    obtain ⟨r₁, hr, h⟩ := Option.bind_eq_some_iff.1 h
    obtain ⟨w₁, hw, h⟩ := Option.bind_eq_some_iff.1 h
    obtain ⟨e₁, he, h⟩ := Option.bind_eq_some_iff.1 h
    have hrest := ih h
    rw [pushIf_fds hr, pushIf_fds hw, pushIf_fds he] at hrest
    simpa only [asking_cons, List.append_assoc] using hrest

/-- **`WSAPoll` writes outside of its sets** if and only if too many entries ask for one thing. -/
theorem collect_ne_none_iff {ps : List PollFd} {r w e : FdSet} :
    collect ps r w e ≠ none ↔ r.fds.length + (asking PollBits.reads ps).length ≤ FD_SETSIZE ∧
      w.fds.length + (asking PollBits.writes ps).length ≤ FD_SETSIZE ∧
      e.fds.length + (asking PollBits.POLLPRI ps).length ≤ FD_SETSIZE := by
  induction ps generalizing r w e with
  | nil => exact iff_of_true (by simp [collect]) ⟨r.count_le, w.count_le, e.count_le⟩
  | cons p ps ih =>
    rw [collect_cons]
    simp only [asking_cons, List.length_append]
    cases hr : pushIf p.events.reads r p.fd with
    | none =>
      obtain ⟨hb, hlen⟩ := pushIf_eq_none_iff.1 hr
      simp only [Option.bind_none, ne_eq, not_true_eq_false, hb, if_true,
        List.length_singleton, false_iff]
      omega
    | some r₁ =>
    cases hw : pushIf p.events.writes w p.fd with
    | none =>
      obtain ⟨hb, hlen⟩ := pushIf_eq_none_iff.1 hw
      simp only [Option.bind_none, Option.bind_some, ne_eq, not_true_eq_false, hb, if_true,
        List.length_singleton, false_iff]
      omega
    | some w₁ =>
    cases he : pushIf p.events.POLLPRI e p.fd with
    | none =>
      obtain ⟨hb, hlen⟩ := pushIf_eq_none_iff.1 he
      simp only [Option.bind_none, Option.bind_some, ne_eq, not_true_eq_false, hb, if_true,
        List.length_singleton, false_iff]
      omega
    | some e₁ =>
      simp only [Option.bind_some]
      rw [ih, pushIf_fds hr, pushIf_fds hw, pushIf_fds he]
      simp only [List.length_append, Nat.add_assoc]

/-- Nothing is asked of any entry. -/
def Idle (fdArray : List PollFd) : Prop :=
  ∀ p ∈ fdArray, p.events.reads = false ∧ p.events.writes = false ∧ p.events.POLLPRI = false

theorem idle_iff {fdArray : List PollFd} :
    Idle fdArray ↔ ∀ fd, ¬ (AskedOf fdArray PollBits.reads fd ∨
      AskedOf fdArray PollBits.writes fd ∨ AskedOf fdArray PollBits.POLLPRI fd) := by
  constructor
  · rintro h fd (⟨q, hq, -, hb⟩ | ⟨q, hq, -, hb⟩ | ⟨q, hq, -, hb⟩)
    · exact absurd hb (by simp [(h q hq).1])
    · exact absurd hb (by simp [(h q hq).2.1])
    · exact absurd hb (by simp [(h q hq).2.2])
  · intro h p hp
    have hp' := h p.fd
    simp only [not_or] at hp'
    exact ⟨Bool.eq_false_iff.2 fun hb => hp'.1 ⟨p, hp, rfl, hb⟩,
      Bool.eq_false_iff.2 fun hb => hp'.2.1 ⟨p, hp, rfl, hb⟩,
      Bool.eq_false_iff.2 fun hb => hp'.2.2 ⟨p, hp, rfl, hb⟩⟩

/-- Every kind of question fits its set. -/
def Room (fdArray : List PollFd) : Prop :=
  (asking PollBits.reads fdArray).length ≤ FD_SETSIZE ∧
    (asking PollBits.writes fdArray).length ≤ FD_SETSIZE ∧
    (asking PollBits.POLLPRI fdArray).length ≤ FD_SETSIZE

theorem collect_empty_ne_none_iff {fdArray : List PollFd} :
    collect fdArray FdSet.empty FdSet.empty FdSet.empty ≠ none ↔ Room fdArray := by
  rw [collect_ne_none_iff]
  simp only [FdSet.empty, List.length_nil, Nat.zero_add, Room]

theorem room_of_idle {fdArray : List PollFd} (h : Idle fdArray) : Room fdArray := by
  have hnil : ∀ asks : PollBits → Bool, (∀ p ∈ fdArray, asks p.events = false) →
      (asking asks fdArray).length ≤ FD_SETSIZE := by
    intro asks hasks
    rw [length_asking, List.countP_eq_zero.2 fun p hp => by simp [hasks p hp]]
    exact Nat.zero_le _
  exact ⟨hnil _ fun p hp => (h p hp).1, hnil _ fun p hp => (h p hp).2.1,
    hnil _ fun p hp => (h p hp).2.2⟩

/-- **What `WSAPoll` does**, by what its entries ask. -/
theorem wsaPoll_cases (rev : ℤ → Revents) (fdArray : List PollFd) (timeout : ℤ) :
    (wsaPoll rev fdArray timeout = .failed ∧
        (fdArray = [] ∨ Idle fdArray ∧ timeout < 0)) ∨
      (wsaPoll rev fdArray timeout = .undefined ∧ ¬ Room fdArray) ∨
      ∃ res, wsaPoll rev fdArray timeout = report res fdArray ∧ Room fdArray ∧
        fdArray ≠ [] ∧ ¬ (Idle fdArray ∧ timeout < 0) ∧
        (∀ fd, fd ∈ members res.read ↔
          AskedOf fdArray PollBits.reads fd ∧ (rev fd).ready.PsxReadyRead = true) ∧
        (∀ fd, fd ∈ members res.write ↔
          AskedOf fdArray PollBits.writes fd ∧ (rev fd).ready.PsxReadyWrite = true) ∧
        ∀ fd, fd ∈ members res.except ↔
          AskedOf fdArray PollBits.POLLPRI fd ∧ (rev fd).ready.PsxReadyExcept = true := by
  by_cases hnil : fdArray = []
  · exact .inl ⟨by rw [wsaPoll, if_pos hnil], .inl hnil⟩
  cases hcollect : collect fdArray FdSet.empty FdSet.empty FdSet.empty with
  | none =>
    refine .inr (.inl ⟨?_, fun h => collect_empty_ne_none_iff.2 h hcollect⟩)
    simp only [wsaPoll, if_neg hnil, hcollect]
  | some sets =>
    obtain ⟨r, w, e⟩ := sets
    have hroom : Room fdArray :=
      collect_empty_ne_none_iff.1 (by rw [hcollect]; exact Option.some_ne_none _)
    obtain ⟨hr, hw, he⟩ := collect_spec hcollect
    simp only [FdSet.empty, List.nil_append] at hr hw he
    have hrequested : ∀ fd, Requested ⟨some r, some w, some e⟩ fd ↔
        AskedOf fdArray PollBits.reads fd ∨ AskedOf fdArray PollBits.writes fd ∨
          AskedOf fdArray PollBits.POLLPRI fd := by
      intro fd
      simp only [Requested, members_some, hr, hw, he, mem_asking]
    have htime : pollUsec timeout < 0 ↔ timeout < 0 := by
      unfold pollUsec
      split_ifs <;> omega
    have hfail : psxSelect rev ⟨some r, some w, some e⟩ (pollUsec timeout) = none ↔
        Idle fdArray ∧ timeout < 0 := by
      rw [psxSelect_eq_none_iff, idle_iff, htime]
      simp only [hrequested]
    cases hselect : psxSelect rev ⟨some r, some w, some e⟩ (pollUsec timeout) with
    | none =>
      refine .inl ⟨?_, .inr (hfail.1 hselect)⟩
      simp only [wsaPoll, if_neg hnil, hcollect, hselect]
    | some res =>
      obtain ⟨hr', hw', he'⟩ := psxSelect_spec hselect
      refine .inr (.inr ⟨res, ?_, hroom, hnil, fun h => ?_, ?_, ?_, ?_⟩)
      · simp only [wsaPoll, if_neg hnil, hcollect, hselect]
      · have := hfail.2 h
        rw [hselect] at this
        exact Option.some_ne_none _ this
      · intro fd
        rw [hr', members_some, hr, List.mem_filter, mem_asking]
      · intro fd
        rw [hw', members_some, hw, List.mem_filter, mem_asking]
      · intro fd
        rw [he', members_some, he, List.mem_filter, mem_asking]

theorem within_reventsOf_iff {res : Sets} {p : PollFd} :
    Within (reventsOf res p) p.events ↔
      (p.fd ∈ members res.read → p.events.POLLRDNORM = true) ∧
        (p.fd ∈ members res.write → p.events.POLLWRNORM = true) ∧
        (p.fd ∈ members res.except → p.events.POLLPRI = true) := by
  constructor
  · intro h
    exact ⟨fun hr => h.rdnorm (decide_eq_true hr), fun hw => h.wrnorm (decide_eq_true hw),
      fun he => h.pri (decide_eq_true he)⟩
  · rintro ⟨hr, hw, he⟩
    exact ⟨fun h => hr (of_decide_eq_true h), fun h => absurd h Bool.false_ne_true,
      fun h => he (of_decide_eq_true h), fun h => hw (of_decide_eq_true h),
      fun h => absurd h Bool.false_ne_true⟩

theorem sound_report_iff {res : Sets} {fdArray : List PollFd} :
    Sound fdArray (report res fdArray) ↔ ∀ p ∈ fdArray, Within (reventsOf res p) p.events := by
  unfold report Sound
  simp only [and_true]
  rw [List.forall₂_map_left_iff, List.forall₂_same]

/-- **`WSAPoll` is sound** if and only if its entries fit, and none gets what another of the same
descriptor asks for. -/
theorem sound_iff_fits (rev : ℤ → Revents) (fdArray : List PollFd) (timeout : ℤ) :
    Sound fdArray (wsaPoll rev fdArray timeout) ↔ Fits rev fdArray := by
  rcases wsaPoll_cases rev fdArray timeout with ⟨h, hidle⟩ | ⟨h, hroom⟩ |
    ⟨res, h, hroom, -, -, hr, hw, he⟩
  · rw [h]
    refine iff_of_true trivial ?_
    have hidle' : Idle fdArray := by
      rcases hidle with rfl | ⟨hidle, -⟩
      · exact fun p hp => absurd hp List.not_mem_nil
      · exact hidle
    have hno := idle_iff.1 hidle'
    obtain ⟨hr, hw, he⟩ := room_of_idle hidle'
    rw [length_asking] at hr hw he
    exact ⟨hr, hw, he, fun p _ hask => absurd (.inl hask) (hno p.fd),
      fun p _ hask => absurd (.inr (.inl hask)) (hno p.fd),
      fun p _ hask => absurd (.inr (.inr hask)) (hno p.fd)⟩
  · rw [h]
    refine iff_of_false id fun hfits => hroom ?_
    unfold Room
    rw [length_asking, length_asking, length_asking]
    exact ⟨hfits.reads, hfits.writes, hfits.pris⟩
  · rw [h, sound_report_iff]
    simp only [within_reventsOf_iff, hr, hw, he]
    unfold Room at hroom
    rw [length_asking, length_asking, length_asking] at hroom
    constructor
    · intro hall
      exact ⟨hroom.1, hroom.2.1, hroom.2.2,
        fun p hp hask hready => (hall p hp).1 ⟨hask, hready⟩,
        fun p hp hask hready => (hall p hp).2.1 ⟨hask, hready⟩,
        fun p hp hask hready => (hall p hp).2.2 ⟨hask, hready⟩⟩
    · intro hfits p hp
      exact ⟨fun h => hfits.read p hp h.1 h.2, fun h => hfits.write p hp h.1 h.2,
        fun h => hfits.except p hp h.1 h.2⟩

theorem wsaPoll_eq_failed_iff (rev : ℤ → Revents) (fdArray : List PollFd) (timeout : ℤ) :
    wsaPoll rev fdArray timeout = .failed ↔ fdArray = [] ∨ Idle fdArray ∧ timeout < 0 := by
  rcases wsaPoll_cases rev fdArray timeout with ⟨h, hidle⟩ | ⟨h, hroom⟩ |
    ⟨res, h, hroom, hne, hidle, -⟩
  · exact iff_of_true h hidle
  · refine iff_of_false (by rw [h]; exact Outcome.noConfusion) fun hor => hroom ?_
    rcases hor with rfl | ⟨hidle, -⟩
    · exact room_of_idle fun p hp => absurd hp List.not_mem_nil
    · exact room_of_idle hidle
  · exact iff_of_false (by rw [h]; exact Outcome.noConfusion) (not_or.2 ⟨hne, hidle⟩)

/-! ### Both -/

/-- **When `select` and `WSAPoll` report exactly what `poll` reports.**  Both fail if and only if
there is nothing to wait for. -/
theorem reports_iff {rev : ℤ → Revents} {sets : Sets} {timeout : Option Timeval}
    (hlegal : Legal rev sets (usec timeout)) (rev' : ℤ → Revents) (fdArray : List PollFd)
    (pollTimeout : ℤ) :
    ((swinxSelect rev sets timeout = none ↔
        (∀ fd, ¬ Requested sets fd) ∧ usec timeout < 0) ∧
      ∀ total res, swinxSelect rev sets timeout = some (total, res) →
        (Exact rev sets (usec timeout) total res ↔ Plain rev sets)) ∧
    (wsaPoll rev' fdArray pollTimeout = .failed ↔
        fdArray = [] ∨ Idle fdArray ∧ pollTimeout < 0) ∧
      (Sound fdArray (wsaPoll rev' fdArray pollTimeout) ↔ Fits rev' fdArray) := by
  refine ⟨⟨swinxSelect_eq_none_iff, fun total res h => exact_iff_plain hlegal h⟩, ?_, ?_⟩
  · exact wsaPoll_eq_failed_iff rev' fdArray pollTimeout
  · exact sound_iff_fits rev' fdArray pollTimeout

/-- Socket 5 is written to. -/
def writeOnly : Sets := ⟨none, some ⟨[5], by decide⟩, none⟩

/-- What is reported of a connection that was reset. -/
def reset (_ : ℤ) : Revents := { Revents.zero with POLLERR := true, POLLHUP := true }

theorem legal_reset : Legal reset writeOnly (usec none) := by
  refine ⟨fun e _ => ?_, fun _ _ => ?_⟩
  · simp [reset, Revents.zero]
  · exact ⟨(5, ⟨false, true, false⟩), List.mem_singleton.2 rfl, by decide⟩

theorem reports_reset :
    ¬ Exact reset writeOnly (usec none) 0 ⟨none, some FdSet.empty, none⟩ := by
  refine fun h => absurd (((reports_iff legal_reset reset [] 0).1.2 0 _ ?_).1 h).noticed ?_
  · rfl
  · intro h
    have := h 5 (.inr (.inl (List.mem_singleton.2 rfl))) (by decide) (by decide)
    rcases this with h | ⟨h, -⟩
    · exact absurd h (by decide)
    · exact absurd h (by decide)

/-- **An error is lost**: of a socket that is only written to, with no timeout, `select` finds
nothing and returns 0. -/
theorem hangup_lost : ∃ res, Legal reset writeOnly (usec none) ∧
    swinxSelect reset writeOnly none = some (0, res) ∧
    ¬ Exact reset writeOnly (usec none) 0 res := by
  refine ⟨⟨none, some FdSet.empty, none⟩, legal_reset, rfl, fun h => ?_⟩
  exact h.infinite (by decide) rfl

end Select

end Swinx
