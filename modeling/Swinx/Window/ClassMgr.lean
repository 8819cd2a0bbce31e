import Swinx.LTS.Basic
import Swinx.Data.CString
import Swinx.Registry.Path

/-!
# The window classes

The classes are kept in one list under a lock.  Registering a class looks for its name in one
critical section and inserts it in another one; between the two the record is made, and its atom
comes from the table of the server.  A class is found by its name ignoring case, and an atom stands
for the name it has; a class is removed by its exact name or by its own atom.

* `classes_of_orderly` — runs of such steps stay sound, and do what is expected.
* `registered_twice` — two threads register one name.
-/

namespace Swinx

namespace ClassMgr

open Registry (lowerAscii)

/-! ### Atoms -/

/-- The atoms of the server, each with its name. -/
abbrev Atoms := List (ℕ × Bytes)

/-- The name of an atom. -/
def Atoms.name (atoms : Atoms) (a : ℕ) : Option Bytes :=
  (atoms.find? fun p => p.1 = a).map Prod.snd

/-- The atom of a name. -/
def Atoms.atom (atoms : Atoms) (n : Bytes) : Option ℕ :=
  (atoms.find? fun p => p.2 = n).map Prod.fst

/-- `SAtoms::getAtomName` into a buffer that is long enough. -/
def getAtomName (atoms : Atoms) (a : ℕ) : Option Bytes :=
  match atoms.name a with
  | some n => some n
  | none => if 10000 < a then some (35 :: formatDec 9 a) else none

/-- `SAtoms::internAtom`; `reply` is the number of a new atom, or 0 without an answer of the
server. -/
def internAtom (atoms : Atoms) (n : Bytes) (reply : ℕ) : Option (Atoms × ℕ) :=
  match atoms.atom n with
  | some a => some (atoms, a)
  | none =>
    if reply = 0 then some (atoms, 0)
    else if atoms.name reply = none then some ((reply, n) :: atoms, reply)
    else none

/-- The loop of `get_int_atom_value` -/
def intAtomDigits : ℕ → Bytes → ℕ
  | ret, [] => ret
  | ret, c :: s =>
    if c < 48 ∨ 57 < c then 0
    else if 0xffff < ret * 10 + (c.toNat - 48) then 0
    else intAtomDigits (ret * 10 + (c.toNat - 48)) s

/-- `get_int_atom_value` of a string -/
def getIntAtomValue : Bytes → ℕ
  | 35 :: s => intAtomDigits 0 s
  | _ => 0

/-! ### Classes -/

/-- A name for a class: an integer atom, or a string. -/
inductive Key
  | atom (a : UInt16)
  | str (n : Bytes)
  deriving DecidableEq, Repr

/-- `CLASS`, with the name it was asked for. -/
structure CLASS where
  /-- Where it is. -/
  address : ℕ
  atomName : ℕ
  name : Bytes
  cbClsExtra : ℕ
  /-- Ghost: the name of the call. -/
  asked : Bytes
  deriving DecidableEq, Repr

/-- `sizeof(CLASS)` -/
def SIZEOF_CLASS : ℕ := 336

/-- Where `name` is in a `CLASS`. -/
def NAME_OFFSET : ℕ := 68

def MAX_ATOM_LEN : ℕ := 255

/-- The name ends in the record. -/
def CLASS.Fits (c : CLASS) : Prop :=
  NAME_OFFSET + c.name.length + 1 ≤ SIZEOF_CLASS + c.cbClsExtra

/-- `WNDCLASSEXA` -/
structure WNDCLASS where
  cbSize : ℕ
  cbClsExtra : ℤ
  cbWndExtra : ℤ
  lpszClassName : Key
  deriving DecidableEq, Repr

/-- `sizeof(WNDCLASSEXA)` -/
def SIZEOF_WNDCLASS : ℕ := 80

/-- The parameters are invalid. -/
def WNDCLASS.Invalid (wc : WNDCLASS) : Prop :=
  wc.cbSize ≠ SIZEOF_WNDCLASS ∨ wc.cbClsExtra < 0 ∨ wc.cbWndExtra < 0

instance decidableInvalid (wc : WNDCLASS) : Decidable wc.Invalid :=
  inferInstanceAs (Decidable (_ ∨ _ ∨ _))

/-- Where a call of `register_class` is. -/
inductive Pc
  | idle
  /-- It has found no class of the name. -/
  | checked (wc : WNDCLASS)
  /-- It has made the record. -/
  | built (c : CLASS)
  deriving DecidableEq, Repr

/-- The classes, the atoms of the server and the threads. -/
structure State (τ : Type*) where
  atoms : Atoms
  /-- The names that `builtin_register` has still to register. -/
  builtin : List Bytes
  class_list : List CLASS
  pc : τ → Pc
  /-- The address of the next record. -/
  fresh : ℕ
  /-- An address was read that is none. -/
  crashed : Bool

/-- The classes of `builtin_register`. -/
def builtinNames : List Bytes :=
  [ascii "window", ascii "tooltips_class32", ascii "#32768", ascii "Static", ascii "Button",
    ascii "ListBox"]

def init {τ : Type*} : State τ where
  atoms := []
  builtin := builtinNames
  class_list := []
  pc _ := .idle
  fresh := 0
  crashed := false

/-- `stricmp` finds the two equal. -/
def SameName (m n : Bytes) : Prop := lowerAscii m = lowerAscii n

instance decidableSameName (m n : Bytes) : Decidable (SameName m n) :=
  inferInstanceAs (Decidable (_ = _))

/-- `_find_class` -/
def findName (class_list : List CLASS) (n : Bytes) : Option CLASS :=
  class_list.find? fun c => SameName c.name n

/-- The name that `find_class` looks for.  Where an atom has none, that is what it finds in a buffer
that it has not written. -/
def Key.nameIn (atoms : Atoms) (junk : Bytes) : Key → Bytes
  | .atom a => (getAtomName atoms a.toNat).getD junk
  | .str n => n

variable {τ : Type*}

/-- `find_class`, when the built-in classes are registered. -/
def State.findClass (s : State τ) (k : Key) (junk : Bytes) : Option CLASS :=
  findName s.class_list (k.nameIn s.atoms junk)

/-- The class that `unregister_class` removes. -/
def Key.Matches : Key → CLASS → Prop
  | .atom a, c => c.atomName = a.toNat
  | .str n, c => c.name = n

instance decidableMatches : ∀ (k : Key) (c : CLASS), Decidable (k.Matches c)
  | .atom a, c => inferInstanceAs (Decidable (c.atomName = a.toNat))
  | .str n, c => inferInstanceAs (Decidable (c.name = n))

/-- `unregister_class` -/
def unregisterClass (class_list : List CLASS) (k : Key) : List CLASS :=
  class_list.eraseP fun c => k.Matches c

/-- What `GetAtomNameA` leaves in the field `name`, which is empty before. -/
def atomNameField (atoms : Atoms) (a : ℕ) : Bytes :=
  let n := (getAtomName atoms a).getD []
  if n.length ≤ MAX_ATOM_LEN then n else []

/-- The record for a name and the table of the server when it is made. -/
def State.build (s : State τ) (n : Bytes) (cbClsExtra : ℕ) (reply : ℕ) :
    Option (Atoms × CLASS) :=
  if getIntAtomValue n ≠ 0 then
    some (s.atoms, ⟨s.fresh, getIntAtomValue n, atomNameField s.atoms (getIntAtomValue n),
      cbClsExtra, n⟩)
  else
    (internAtom s.atoms n reply).map fun r => (r.1, ⟨s.fresh, r.2, n, cbClsExtra, n⟩)

/-- The steps of the threads, and of other clients of the server. -/
inductive Act (τ : Type*)
  /-- The next class of `builtin_register`, which runs in the first call of `find_class`. -/
  | builtin (reply : ℕ)
  /-- `register_class` up to the end of its first critical section. -/
  | registerClass (t : τ) (wc : WNDCLASS) (junk : Bytes)
  /-- It makes the record. -/
  | build (t : τ) (reply : ℕ)
  /-- Its second critical section. -/
  | push (t : τ)
  | findClass (k : Key) (junk : Bytes)
  | unregisterClass (k : Key)
  /-- Another client asks for the atom of a name. -/
  | intern (n : Bytes) (reply : ℕ)

variable [DecidableEq τ]

def State.setPc (s : State τ) (t : τ) (pc : Pc) : State τ :=
  { s with pc := Function.update s.pc t pc }

/-- One class of `builtin_register`. -/
def State.registerBuiltin (s : State τ) (n : Bytes) (rest : List Bytes) (reply : ℕ) :
    Option (State τ) :=
  if (findName s.class_list n).isSome then some { s with builtin := rest }
  else
    (s.build n 0 reply).map fun r =>
      { s with
        atoms := r.1
        builtin := rest
        class_list := r.2 :: s.class_list
        fresh := s.fresh + 1 }

/-- `register_class` up to the end of its first critical section. -/
def State.registerClass (s : State τ) (t : τ) (wc : WNDCLASS) (junk : Bytes) : State τ :=
  if wc.Invalid then s
  else if (s.findClass wc.lpszClassName junk).isSome then s
  else s.setPc t (.checked wc)

/-- `get_int_atom_value` takes the length of the name before it looks whether it is an atom. -/
def State.makeRecord (s : State τ) (t : τ) (wc : WNDCLASS) (reply : ℕ) : Option (State τ) :=
  match wc.lpszClassName with
  | .atom _ => some { s with crashed := true }
  | .str n =>
    (s.build n wc.cbClsExtra.toNat reply).map fun r =>
      { s with
        atoms := r.1
        pc := Function.update s.pc t (.built r.2)
        fresh := s.fresh + 1 }

/-- One step. -/
def State.step (s : State τ) : Act τ → Option (State τ)
  | .builtin reply =>
    match s.builtin with
    | [] => none
    | n :: rest => s.registerBuiltin n rest reply
  | .registerClass t wc junk =>
    if s.builtin = [] ∧ s.pc t = .idle then some (s.registerClass t wc junk) else none
  | .build t reply =>
    match s.pc t with
    | .checked wc => s.makeRecord t wc reply
    | _ => none
  | .push t =>
    match s.pc t with
    | .built c =>
      some { s with
        class_list := c :: s.class_list
        pc := Function.update s.pc t .idle }
    | _ => none
  | .findClass _ _ => if s.builtin = [] then some s else none
  | .unregisterClass k => some { s with class_list := unregisterClass s.class_list k }
  | .intern n reply => (internAtom s.atoms n reply).map fun r => { s with atoms := r.1 }

/-- One step, unless the process has crashed. -/
def next (s : State τ) (a : Act τ) : Option (State τ) := if s.crashed then none else s.step a

/-- The list under all threads. -/
def lts : LTS (State τ) (Act τ) where
  next := next

/-! ### What is expected -/

/-- **The list is sound.** -/
structure Sound (s : State τ) : Prop where
  running : s.crashed = false
  /-- No name is registered twice. -/
  unique : s.class_list.Pairwise fun c d => ¬ SameName c.name d.name
  /-- A class is found by the name it was registered with, in any case. -/
  byName : ∀ c ∈ s.class_list, ∀ n junk, SameName n c.asked → s.findClass (.str n) junk = some c
  /-- And by its atom. -/
  byAtom : ∀ c ∈ s.class_list, ∃ a : UInt16, a.toNat = c.atomName ∧
    ∀ junk, s.findClass (.atom a) junk = some c
  /-- No byte outside of a record is written. -/
  fits : ∀ c ∈ s.class_list, c.Fits
  fits_built : ∀ t c, s.pc t = .built c → c.Fits

/-- The class has the name that the key stands for. -/
def NamedBy (atoms : Atoms) : Key → CLASS → Prop
  | .atom a, c => ∃ m, getAtomName atoms a.toNat = some m ∧ SameName c.name m
  | .str n, c => SameName c.name n

/-- **What a step does is what the caller may expect.** -/
def Right (s : State τ) : Act τ → Prop
  /- a registration that fails has found a class of the name -/
  | .registerClass _ wc junk =>
    ¬ wc.Invalid → ∀ c, s.findClass wc.lpszClassName junk = some c →
      NamedBy s.atoms wc.lpszClassName c
  /- one that succeeds is the only one of its name, and returns an atom -/
  | .push t => ∀ c, s.pc t = .built c →
    (∀ d ∈ s.class_list, ¬ SameName d.name c.asked) ∧ c.atomName ≠ 0
  /- what is found is removed -/
  | .unregisterClass k => ∀ junk c, s.findClass k junk = some c →
    s.class_list.find? (fun d => k.Matches d) = some c
  | _ => True

/-! ### The steps that keep the list sound -/

/-- The record is in the list, or a thread has made it. -/
def State.Made (s : State τ) (c : CLASS) : Prop := c ∈ s.class_list ∨ ∃ t, s.pc t = .built c

/-- The number of a new atom is an integer atom that no class has. -/
def State.Unused (s : State τ) (n : Bytes) (reply : ℕ) : Prop :=
  s.atoms.atom n = none → ∀ c, s.Made c → c.atomName ≠ reply

/-- The name leads to an atom that has it: a name `#n` is that of the atom `n`, and the atom of
another name is an integer atom.  The name fits the record. -/
structure State.NameOk (s : State τ) (n : Bytes) (cbClsExtra : ℕ) (reply : ℕ) : Prop where
  int : getIntAtomValue n ≠ 0 → ∃ m, getAtomName s.atoms (getIntAtomValue n) = some m ∧
    SameName m n ∧ m.length ≤ MAX_ATOM_LEN
  interned : getIntAtomValue n = 0 → ∀ a, a = (s.atoms.atom n).getD reply → 0 < a ∧ a < 0x10000
  unused : getIntAtomValue n = 0 → s.Unused n reply
  fits : NAME_OFFSET + n.length + 1 ≤ SIZEOF_CLASS + cbClsExtra

/-- **The steps that keep the list sound.** -/
def Orderly (s : State τ) : Act τ → Prop
  | .builtin reply => ∀ n rest, s.builtin = n :: rest → findName s.class_list n = none →
    s.NameOk n 0 reply
  /- an atom that is registered has a name -/
  | .registerClass _ wc _ => ∀ a, wc.lpszClassName = .atom a → getAtomName s.atoms a.toNat ≠ none
  | .build t reply => ∀ wc, s.pc t = .checked wc → ∃ n, wc.lpszClassName = .str n ∧
    s.NameOk n wc.cbClsExtra.toNat reply
  /- since the first critical section no class of the name was inserted -/
  | .push t => ∀ c, s.pc t = .built c → ∀ d ∈ s.class_list, ¬ SameName d.name c.name
  | .findClass _ _ => True
  /- the key is the exact name of the class, or its own atom -/
  | .unregisterClass k => ∀ junk c, s.findClass k junk = some c → k.Matches c
  | .intern n reply => s.Unused n reply

/-! ### Names and atoms -/

theorem SameName.symm {m n : Bytes} (h : SameName m n) : SameName n m := Eq.symm h

theorem SameName.trans {m n k : Bytes} (h : SameName m n) (h' : SameName n k) : SameName m k :=
  Eq.trans h h'

theorem SameName.length {m n : Bytes} (h : SameName m n) : m.length = n.length := by
  simpa [lowerAscii] using congrArg List.length h

theorem intAtomDigits_lt (ret : ℕ) (s : Bytes) (h : ret < 0x10000) :
    intAtomDigits ret s < 0x10000 := by
  induction s generalizing ret with
  | nil => exact h
  | cons c s ih =>
    unfold intAtomDigits
    split_ifs with h1 h2
    · decide
    · decide
    · exact ih _ (by omega)

theorem getIntAtomValue_lt (n : Bytes) : getIntAtomValue n < 0x10000 := by
  unfold getIntAtomValue
  split
  · exact intAtomDigits_lt 0 _ (by decide)
  · decide

theorem Atoms.name_cons (atoms : Atoms) (r : ℕ) (n : Bytes) (a : ℕ) :
    Atoms.name ((r, n) :: atoms) a = if r = a then some n else atoms.name a := by
  unfold Atoms.name
  by_cases h : r = a
  · rw [if_pos h, List.find?_cons_of_pos (by simpa using h)]
    rfl
  · rw [if_neg h, List.find?_cons_of_neg (by simpa using h)]

theorem Atoms.mem_of_atom {atoms : Atoms} {n : Bytes} {a : ℕ} (h : atoms.atom n = some a) :
    (a, n) ∈ atoms := by
  obtain ⟨p, hp, rfl⟩ := Option.map_eq_some_iff.1 h
  have hn : p.2 = n := by simpa using List.find?_some hp
  subst hn
  exact List.mem_of_find?_eq_some hp

/-- Every atom of the table has one name. -/
def Atoms.Consistent (atoms : Atoms) : Prop := ∀ p ∈ atoms, atoms.name p.1 = some p.2

/-- The table after a request is the old one, or has one new atom. -/
inductive Atoms.Grows (atoms : Atoms) (n : Bytes) (reply : ℕ) : Atoms → Prop
  | same : Atoms.Grows atoms n reply atoms
  | new (ha : atoms.atom n = none) (hr : atoms.name reply = none) :
    Atoms.Grows atoms n reply ((reply, n) :: atoms)

theorem internAtom_grows {atoms atoms' : Atoms} {n : Bytes} {reply a : ℕ}
    (h : internAtom atoms n reply = some (atoms', a)) : atoms.Grows n reply atoms' := by
  unfold internAtom at h
  cases ha : atoms.atom n with
  | some b =>
    simp only [ha, Option.some.injEq, Prod.mk.injEq] at h
    exact h.1 ▸ .same
  | none =>
    simp only [ha] at h
    split_ifs at h with h0 hr
    · cases h
      exact .same
    · cases h
      exact .new ha hr

theorem internAtom_eq {atoms atoms' : Atoms} {n : Bytes} {reply a : ℕ}
    (h : internAtom atoms n reply = some (atoms', a)) : a = (atoms.atom n).getD reply := by
  unfold internAtom at h
  cases ha : atoms.atom n with
  | some b =>
    simp only [ha, Option.some.injEq, Prod.mk.injEq] at h
    exact h.2.symm
  | none =>
    simp only [ha] at h
    split_ifs at h with h0 hr
    · cases h
      exact h0.symm
    · cases h
      rfl

theorem Atoms.Grows.consistent {atoms atoms' : Atoms} {n : Bytes} {reply : ℕ}
    (h : atoms.Grows n reply atoms') (hc : atoms.Consistent) : atoms'.Consistent := by
  cases h with
  | same => exact hc
  | new ha hr =>
    intro p hp
    rw [Atoms.name_cons]
    rcases List.mem_cons.1 hp with rfl | hmem
    · rw [if_pos rfl]
    · have hne : reply ≠ p.1 := by
        rintro rfl
        rw [hc p hmem] at hr
        cases hr
      rw [if_neg hne, hc p hmem]

theorem name_of_internAtom {atoms atoms' : Atoms} {n : Bytes} {reply a : ℕ}
    (hc : atoms.Consistent) (h : internAtom atoms n reply = some (atoms', a)) (h0 : a ≠ 0) :
    atoms'.name a = some n := by
  have h' := h
  unfold internAtom at h'
  cases ha : atoms.atom n with
  | some b =>
    simp only [ha, Option.some.injEq, Prod.mk.injEq] at h'
    obtain ⟨rfl, rfl⟩ := h'
    exact hc _ (Atoms.mem_of_atom ha)
  | none =>
    simp only [ha] at h'
    split_ifs at h' with hr0 hr
    · cases h'
      exact absurd rfl h0
    · cases h'
      rw [Atoms.name_cons, if_pos rfl]

theorem getAtomName_of_name {atoms : Atoms} {a : ℕ} {n : Bytes} (h : atoms.name a = some n) :
    getAtomName atoms a = some n := by
  unfold getAtomName
  rw [h]

theorem Atoms.Grows.getAtomName {atoms atoms' : Atoms} {n : Bytes} {reply a : ℕ}
    (h : atoms.Grows n reply atoms') (ha : atoms.atom n = none → a ≠ reply) :
    getAtomName atoms' a = ClassMgr.getAtomName atoms a := by
  cases h with
  | same => rfl
  | new hn hr =>
    unfold ClassMgr.getAtomName
    rw [Atoms.name_cons, if_neg (Ne.symm (ha hn))]

/-- The record has an integer atom, whose name it has, and that is the name it was asked for. -/
structure Named (atoms : Atoms) (c : CLASS) : Prop where
  pos : 0 < c.atomName
  lt : c.atomName < 0x10000
  name : ∃ m, getAtomName atoms c.atomName = some m ∧ SameName c.name m
  asked : SameName c.name c.asked
  fits : c.Fits

theorem Named.grows {atoms atoms' : Atoms} {n : Bytes} {reply : ℕ} {c : CLASS}
    (h : Named atoms c) (hg : atoms.Grows n reply atoms')
    (hne : atoms.atom n = none → c.atomName ≠ reply) : Named atoms' c where
  pos := h.pos
  lt := h.lt
  name := by
    rw [hg.getAtomName hne]
    exact h.name
  asked := h.asked
  fits := h.fits

omit [DecidableEq τ] in
theorem State.build_named {s : State τ} {n : Bytes} {cbClsExtra reply : ℕ}
    (hc : s.atoms.Consistent) (hok : s.NameOk n cbClsExtra reply) {r : Atoms × CLASS}
    (h : s.build n cbClsExtra reply = some r) :
    Named r.1 r.2 ∧ s.atoms.Grows n reply r.1 ∧ r.2.asked = n ∧
      (getIntAtomValue n ≠ 0 → r.1 = s.atoms) := by
  unfold State.build at h
  by_cases hv : getIntAtomValue n ≠ 0
  · rw [if_pos hv] at h
    obtain ⟨m, hm, hsame, hlen⟩ := hok.int hv
    have hfield : atomNameField s.atoms (getIntAtomValue n) = m := by
      unfold atomNameField
      simp only [hm, Option.getD_some]
      rw [if_pos hlen]
    cases h
    refine ⟨⟨Nat.pos_of_ne_zero hv, getIntAtomValue_lt n, ⟨m, hm, congrArg lowerAscii hfield⟩,
      ?_, ?_⟩, .same, rfl, fun _ => rfl⟩
    · exact (congrArg lowerAscii hfield).trans hsame
    · have hfits := hok.fits
      have := hsame.length
      unfold CLASS.Fits
      simp only [hfield]
      omega
  · rw [if_neg hv] at h
    obtain ⟨⟨atoms', a⟩, hi, rfl⟩ := Option.map_eq_some_iff.1 h
    obtain ⟨hpos, hlt⟩ := hok.interned (not_not.1 hv) a (internAtom_eq hi)
    have hname := name_of_internAtom hc hi (by omega)
    exact ⟨⟨hpos, hlt, ⟨n, getAtomName_of_name hname, rfl⟩, rfl, hok.fits⟩, internAtom_grows hi,
      rfl, fun hne => absurd hne hv⟩

/-- The class of a name, in a list of which the names are unique. -/
theorem findName_eq {l : List CLASS} (hu : l.Pairwise fun c d => ¬ SameName c.name d.name)
    {c : CLASS} (hc : c ∈ l) {n : Bytes} (hn : SameName c.name n) : findName l n = some c := by
  unfold findName
  induction l with
  | nil => cases hc
  | cons d l ih =>
    obtain ⟨hd, hu⟩ := List.pairwise_cons.1 hu
    rcases List.mem_cons.1 hc with rfl | hc
    · exact List.find?_cons_of_pos (by simpa using hn)
    · have hne : ¬ SameName d.name n := fun h => hd c hc (h.trans hn.symm)
      rw [List.find?_cons_of_neg (by simpa using hne)]
      exact ih hu hc

theorem findName_some {l : List CLASS} {n : Bytes} {c : CLASS} (h : findName l n = some c) :
    c ∈ l ∧ SameName c.name n :=
  ⟨List.mem_of_find?_eq_some h, by simpa using List.find?_some h⟩

theorem findName_none {l : List CLASS} {n : Bytes} (h : findName l n = none) :
    ∀ c ∈ l, ¬ SameName c.name n := by
  simpa [findName] using h

/-- **The invariant.** -/
structure Inv (s : State τ) : Prop where
  running : s.crashed = false
  consistent : s.atoms.Consistent
  named : ∀ c, s.Made c → Named s.atoms c
  unique : s.class_list.Pairwise fun c d => ¬ SameName c.name d.name

omit [DecidableEq τ] in
theorem Inv.init : Inv (init : State τ) where
  running := rfl
  consistent := fun p hp => absurd hp List.not_mem_nil
  named := by
    rintro c (hc | ⟨t, ht⟩)
    · exact absurd hc List.not_mem_nil
    · cases ht
  unique := .nil

namespace Inv

variable {s : State τ}

omit [DecidableEq τ] in
theorem findClass_str (h : Inv s) {c : CLASS} (hc : c ∈ s.class_list) {n : Bytes}
    (hn : SameName c.name n) (junk : Bytes) : s.findClass (.str n) junk = some c :=
  findName_eq h.unique hc hn

omit [DecidableEq τ] in
theorem findClass_atom (h : Inv s) {c : CLASS} (hc : c ∈ s.class_list) {a : UInt16}
    (ha : a.toNat = c.atomName) (junk : Bytes) : s.findClass (.atom a) junk = some c := by
  obtain ⟨m, hm, hsame⟩ := (h.named c (.inl hc)).name
  unfold State.findClass Key.nameIn
  simp only [ha, hm, Option.getD_some]
  exact findName_eq h.unique hc hsame

omit [DecidableEq τ] in
theorem sound (h : Inv s) : Sound s where
  running := h.running
  unique := h.unique
  byName c hc n junk hn :=
    h.findClass_str hc ((h.named c (.inl hc)).asked.trans hn.symm) junk
  byAtom c hc := by
    have hlt := (h.named c (.inl hc)).lt
    refine ⟨UInt16.ofNat c.atomName, UInt16.toNat_ofNat_of_lt hlt, fun junk => ?_⟩
    exact h.findClass_atom hc (UInt16.toNat_ofNat_of_lt hlt) junk
  fits c hc := (h.named c (.inl hc)).fits
  fits_built t c ht := (h.named c (.inr ⟨t, ht⟩)).fits

omit [DecidableEq τ] in
theorem find?_matches (h : Inv s) {k : Key} {c : CLASS} (hc : c ∈ s.class_list)
    (hk : k.Matches c) : s.class_list.find? (fun d => k.Matches d) = some c := by
  have huniq : ∀ d ∈ s.class_list, k.Matches d → d = c := by
    intro d hd hkd
    cases k with
    | atom a =>
      have hfind := h.findClass_atom hd (Eq.symm hkd) []
      rw [h.findClass_atom hc (Eq.symm hk) []] at hfind
      exact (Option.some.inj hfind).symm
    | str n =>
      have hfind := h.findClass_str hd (congrArg lowerAscii hkd) []
      rw [h.findClass_str hc (congrArg lowerAscii hk) []] at hfind
      exact (Option.some.inj hfind).symm
  cases hf : s.class_list.find? fun d => k.Matches d with
  | none => exact absurd hk (by simpa using List.find?_eq_none.1 hf c hc)
  | some d =>
    have hd : k.Matches d := by simpa using List.find?_some hf
    rw [huniq d (List.mem_of_find?_eq_some hf) hd]

omit [DecidableEq τ] in
/-- **Steps of this kind do what is expected.** -/
theorem right (h : Inv s) {a : Act τ} (ha : Orderly s a) : Right s a := by
  cases a with
  | registerClass t wc junk =>
    intro _ c hc
    obtain ⟨-, hsame⟩ := findName_some hc
    cases hk : wc.lpszClassName with
    | atom a =>
      obtain ⟨m, hm⟩ := Option.ne_none_iff_exists'.1 (ha a hk)
      refine ⟨m, hm, ?_⟩
      rwa [hk, show Key.nameIn s.atoms junk (.atom a) = m by simp [Key.nameIn, hm]] at hsame
    | str n =>
      rw [hk] at hsame
      exact hsame
  | push t =>
    intro c hc
    have hnamed := h.named c (.inr ⟨t, hc⟩)
    exact ⟨fun d hd hsame => ha c hc d hd (hsame.trans hnamed.asked.symm), hnamed.pos.ne'⟩
  | unregisterClass k =>
    intro junk c hc
    exact h.find?_matches (findName_some hc).1 (ha junk c hc)
  | _ => trivial

omit [DecidableEq τ] in
theorem named_grows (h : Inv s) {atoms : Atoms} {n : Bytes} {reply : ℕ}
    (hg : s.atoms.Grows n reply atoms) (hunused : s.Unused n reply) {c : CLASS} (hc : s.Made c) :
    Named atoms c :=
  (h.named c hc).grows hg fun hn => hunused hn c hc

omit [DecidableEq τ] in
theorem named_build (h : Inv s) {n : Bytes} {cbClsExtra reply : ℕ}
    (hok : s.NameOk n cbClsExtra reply) {r : Atoms × CLASS}
    (hr : s.build n cbClsExtra reply = some r) :
    r.1.Consistent ∧ Named r.1 r.2 ∧ r.2.asked = n ∧ ∀ c, s.Made c → Named r.1 c := by
  obtain ⟨hnamed, hg, hasked, hint⟩ := State.build_named h.consistent hok hr
  refine ⟨hg.consistent h.consistent, hnamed, hasked, fun c hc => ?_⟩
  by_cases hv : getIntAtomValue n = 0
  · exact h.named_grows hg (hok.unused hv) hc
  · rw [hint hv]
    exact h.named c hc

/-- **One step.** -/
theorem of_step (h : Inv s) {a : Act τ} (ha : Orderly s a) {s' : State τ}
    (hs : s.step a = some s') : Inv s' := by
  cases a with
  | builtin reply =>
    simp only [State.step] at hs
    cases hb : s.builtin with
    | nil => simp [hb] at hs
    | cons n rest =>
      simp only [hb, State.registerBuiltin] at hs
      by_cases hf : (findName s.class_list n).isSome
      · rw [if_pos hf] at hs
        cases hs
        exact ⟨h.running, h.consistent, h.named, h.unique⟩
      · rw [if_neg hf] at hs
        have hnone : findName s.class_list n = none := by simpa using hf
        obtain ⟨r, hr, rfl⟩ := Option.map_eq_some_iff.1 hs
        obtain ⟨hcons, hnew, hasked, hold⟩ := h.named_build (ha n rest hb hnone) hr
        refine ⟨h.running, hcons, ?_, ?_⟩
        · rintro c (hc | ⟨t, ht⟩)
          · rcases List.mem_cons.1 hc with rfl | hc
            · exact hnew
            · exact hold c (.inl hc)
          · exact hold c (.inr ⟨t, ht⟩)
        · refine List.pairwise_cons.2 ⟨fun d hd hsame => ?_, h.unique⟩
          have hn := hnew.asked
          rw [hasked] at hn
          exact findName_none hnone d hd (hsame.symm.trans hn)
  | registerClass t wc junk =>
    simp only [State.step] at hs
    split_ifs at hs
    cases hs
    unfold State.registerClass
    split_ifs
    · exact h
    · exact h
    · refine ⟨h.running, h.consistent, ?_, h.unique⟩
      rintro c (hc | ⟨t', ht'⟩)
      · exact h.named c (.inl hc)
      · by_cases htt : t' = t
        · subst htt
          simp [State.setPc] at ht'
        · exact h.named c (.inr ⟨t', by simpa [State.setPc, htt] using ht'⟩)
  | build t reply =>
    simp only [State.step] at hs
    cases hpc : s.pc t with
    | idle => simp [hpc] at hs
    | built c => simp [hpc] at hs
    | checked wc =>
      obtain ⟨n, hn, hok⟩ := ha wc hpc
      simp only [hpc, State.makeRecord, hn] at hs
      obtain ⟨r, hr, rfl⟩ := Option.map_eq_some_iff.1 hs
      obtain ⟨hcons, hnew, -, hold⟩ := h.named_build hok hr
      refine ⟨h.running, hcons, ?_, h.unique⟩
      rintro c (hc | ⟨t', ht'⟩)
      · exact hold c (.inl hc)
      · by_cases htt : t' = t
        · subst htt
          have hrc : r.2 = c := by simpa using ht'
          exact hrc ▸ hnew
        · exact hold c (.inr ⟨t', by simpa [htt] using ht'⟩)
  | push t =>
    simp only [State.step] at hs
    cases hpc : s.pc t with
    | idle => simp [hpc] at hs
    | checked wc => simp [hpc] at hs
    | built c =>
      simp only [hpc, Option.some.injEq] at hs
      subst hs
      refine ⟨h.running, h.consistent, ?_, ?_⟩
      · rintro d (hd | ⟨t', ht'⟩)
        · rcases List.mem_cons.1 hd with rfl | hd
          · exact h.named d (.inr ⟨t, hpc⟩)
          · exact h.named d (.inl hd)
        · by_cases htt : t' = t
          · subst htt
            simp at ht'
          · exact h.named d (.inr ⟨t', by simpa [htt] using ht'⟩)
      · exact List.pairwise_cons.2 ⟨fun d hd hsame => ha c hpc d hd hsame.symm, h.unique⟩
  | findClass k junk =>
    simp only [State.step] at hs
    split_ifs at hs
    cases hs
    exact h
  | unregisterClass k =>
    cases hs
    have hsub : (unregisterClass s.class_list k).Sublist s.class_list := List.eraseP_sublist
    refine ⟨h.running, h.consistent, ?_, h.unique.sublist hsub⟩
    rintro c (hc | ht)
    · exact h.named c (.inl (hsub.subset hc))
    · exact h.named c (.inr ht)
  | intern n reply =>
    obtain ⟨r, hr, rfl⟩ := Option.map_eq_some_iff.1 hs
    have hg := internAtom_grows hr
    exact ⟨h.running, hg.consistent h.consistent, fun c hc => h.named_grows hg ha hc, h.unique⟩

end Inv

theorem Inv.of_next {s s' : State τ} (h : Inv s) {a : Act τ} (ha : Orderly s a)
    (hs : lts.next s a = some s') : Inv s' := by
  have hrun : next s a = some s' := hs
  unfold next at hrun
  rw [if_neg (by simp [h.running])] at hrun
  exact h.of_step ha hrun

/-- **The registry of the classes.**  In a run of such steps, from before the built-in classes are
registered on, the list is sound at every moment and every step does what is expected. -/
theorem classes_of_orderly (acts : List (Act τ)) (h : lts.AllSteps Orderly init acts) :
    lts.AllStates Sound init acts ∧ lts.AllSteps Right init acts :=
  ⟨LTS.allStates_of_allSteps (fun _ hI => hI.sound) (fun _ _ _ hI ha hs => hI.of_next ha hs)
      Inv.init h,
    h.imp_of_invariant (fun _ _ hI ha => hI.right ha) (fun _ _ _ hI ha hs => hI.of_next ha hs)
      Inv.init⟩

/-! ### Deciding whether a step is orderly -/

/-- The record that a call has made. -/
def Pc.record : Pc → Option CLASS
  | .built c => some c
  | _ => none

theorem Pc.mem_record {pc : Pc} {c : CLASS} : c ∈ pc.record ↔ pc = .built c := by
  cases pc <;> simp [Pc.record]

omit [DecidableEq τ] in
theorem State.forall_made {s : State τ} {P : CLASS → Prop} :
    (∀ c, s.Made c → P c) ↔ (∀ c ∈ s.class_list, P c) ∧ ∀ t, ∀ c ∈ (s.pc t).record, P c := by
  simp only [Pc.mem_record]
  constructor
  · exact fun h => ⟨fun c hc => h c (.inl hc), fun t c ht => h c (.inr ⟨t, ht⟩)⟩
  · rintro ⟨hl, ht⟩ c (hc | ⟨t, hc⟩)
    · exact hl c hc
    · exact ht t c hc

instance decidableUnused [Fintype τ] (s : State τ) (n : Bytes) (reply : ℕ) :
    Decidable (s.Unused n reply) :=
  decidable_of_iff _ (imp_congr_right fun _ => State.forall_made.symm)

instance decidableNameOk [Fintype τ] (s : State τ) (n : Bytes) (cbClsExtra reply : ℕ) :
    Decidable (s.NameOk n cbClsExtra reply) :=
  decidable_of_iff ((getIntAtomValue n ≠ 0 → ∃ m ∈ getAtomName s.atoms (getIntAtomValue n),
      SameName m n ∧ m.length ≤ MAX_ATOM_LEN) ∧
    (getIntAtomValue n = 0 → 0 < (s.atoms.atom n).getD reply ∧
      (s.atoms.atom n).getD reply < 0x10000) ∧
    (getIntAtomValue n = 0 → s.Unused n reply) ∧
      NAME_OFFSET + n.length + 1 ≤ SIZEOF_CLASS + cbClsExtra)
    ⟨fun h => ⟨h.1, fun hn _ ha => ha ▸ h.2.1 hn, h.2.2.1, h.2.2.2⟩,
      fun h => ⟨h.int, fun hn => h.interned hn _ rfl, h.unused, h.fits⟩⟩

omit [DecidableEq τ] in
/-- What an atom without a name finds is what the name of a class in the list finds. -/
theorem forall_findClass {s : State τ} {k : Key} :
    (∀ d ∈ s.class_list, ∀ c ∈ s.findClass k d.name, k.Matches c) ↔
      ∀ junk c, s.findClass k junk = some c → k.Matches c := by
  refine ⟨fun h junk c hc => ?_, fun h d _ c hc => h d.name c hc⟩
  obtain ⟨hmem, hname⟩ := findName_some hc
  refine h c hmem c (Option.mem_def.2 ?_)
  have hsame : ∀ n, SameName c.name n → findName s.class_list n = findName s.class_list c.name :=
    fun n hn => congrArg (fun p => s.class_list.find? p) (funext fun d =>
      decide_eq_decide.2 ⟨fun hd => hd.trans hn.symm, fun hd => hd.trans hn⟩)
  cases k with
  | str n => exact hc
  | atom a =>
    cases ha : getAtomName s.atoms a.toNat with
    | some m => simpa only [State.findClass, Key.nameIn, ha, Option.getD_some] using hc
    | none =>
      simp only [State.findClass, Key.nameIn, ha, Option.getD_none] at hc hname ⊢
      exact (hsame _ hname).symm.trans hc

instance decidableOrderly [Fintype τ] (s : State τ) : (a : Act τ) → Decidable (Orderly s a)
  | .builtin reply =>
    decidable_of_iff (∀ n ∈ s.builtin.head?, findName s.class_list n = none → s.NameOk n 0 reply)
      ⟨fun h n rest hb => h n (by simp [hb]), fun h n hn => by
        obtain ⟨rest, hb⟩ := List.head?_eq_some_iff.1 hn
        exact h n rest hb⟩
  | .registerClass _ wc _ =>
    match hk : wc.lpszClassName with
    | .atom a => decidable_of_iff (getAtomName s.atoms a.toNat ≠ none) (by simp [Orderly, hk])
    | .str _ => .isTrue (by simp [Orderly, hk])
  | .build t reply =>
    match ht : s.pc t with
    | .checked wc =>
      match hk : wc.lpszClassName with
      | .atom _ => .isFalse (by simp [Orderly, ht, hk])
      | .str n =>
        decidable_of_iff (s.NameOk n wc.cbClsExtra.toNat reply) (by simp [Orderly, ht, hk])
    | .idle | .built _ => .isTrue (by simp [Orderly, ht])
  | .push t =>
    decidable_of_iff (∀ c ∈ (s.pc t).record, ∀ d ∈ s.class_list, ¬ SameName d.name c.name)
      (by simp only [Orderly, Pc.mem_record])
  | .findClass _ _ => .isTrue trivial
  | .unregisterClass _ => decidable_of_iff _ forall_findClass
  | .intern n reply => inferInstanceAs (Decidable (s.Unused n reply))

/-- Two threads register classes at the same time, one with a name that a third client has asked for
already; both are found, one by its atom, and the other one is removed. -/
def sampleRun : List (Act Bool) :=
  [.builtin 101, .builtin 102, .builtin 103, .builtin 104, .builtin 105, .builtin 106,
    .intern (ascii "def") 202,
    .registerClass false ⟨80, 0, 0, .str (ascii "abc")⟩ [],
    .registerClass true ⟨80, 4, 0, .str (ascii "def")⟩ [],
    .build true 203, .build false 201, .push false, .push true,
    .findClass (.atom 202) [], .registerClass false ⟨80, 0, 0, .str (ascii "DEF")⟩ [],
    .unregisterClass (.str (ascii "abc"))]

theorem classes_sample : (lts.run init sampleRun).isSome ∧
    lts.AllStates Sound init sampleRun ∧ lts.AllSteps Right init sampleRun :=
  ⟨by decide +kernel, classes_of_orderly sampleRun (by decide +kernel)⟩

/-! ### Where it goes wrong -/

/-- Two threads find no class of a name, and both insert one. -/
def racingRun : List (Act Bool) :=
  [.builtin 101, .builtin 102, .builtin 103, .builtin 104, .builtin 105, .builtin 106,
    .registerClass false ⟨80, 0, 0, .str (ascii "abc")⟩ [],
    .registerClass true ⟨80, 0, 0, .str (ascii "ABC")⟩ [],
    .build false 201, .build true 202, .push false, .push true]

/-- **A name is registered twice.** -/
theorem registered_twice : ∃ s, lts.run init racingRun = some s ∧ ¬ Sound s :=
  ⟨_, rfl, fun h => absurd h.unique (by decide)⟩

end ClassMgr

end Swinx
