import Mathlib.Data.List.Basic
import Swinx.Data.CString

/-!
# The command line of a new process

`CreateProcess` cuts the command line into the program and the arguments of `execve`.  The program
is cut off by a scanner of its own, which looks for the end of a quoted name but leaves the quotes
where they are; the arguments after it lose theirs.

* `splitArgs_commandLine` — the scanner of the arguments gives back what was joined.
* `createProcess_iff` — the program and the arguments arrive exactly if the program is not quoted.
-/

namespace Swinx

namespace CommandLine

/-! ### The scanners -/

abbrev quote : UInt8 := 34

abbrev space : UInt8 := 32

/-- `strstr(s, "\" ")`: what is in front of the two characters, and what is behind them. -/
def strstrQuote : Bytes → Option (Bytes × Bytes)
  | a :: b :: s =>
    if a = quote ∧ b = space then some ([], s)
    else (strstrQuote (b :: s)).map fun r => (a :: r.1, r.2)
  | _ => none

/-- `strrchr(s, '"')`: what is in front of the last quote. -/
def strrchrQuote : Bytes → Option Bytes
  | [] => none
  | a :: s =>
    match strrchrQuote s with
    | some r => some (a :: r)
    | none => if a = quote then some [] else none

theorem length_strstrQuote {s : Bytes} {r : Bytes × Bytes} (h : strstrQuote s = some r) :
    r.2.length < s.length := by
  induction s generalizing r with
  | nil => cases h
  | cons a s ih =>
    cases s with
    | nil => cases h
    | cons b s =>
      unfold strstrQuote at h
      split_ifs at h
      · cases h
        simp only [List.length_cons]
        omega
      · obtain ⟨r', hr', rfl⟩ := Option.map_eq_some_iff.1 h
        exact (ih hr').trans (Nat.lt_succ_self _)

theorem length_breakOn {c : UInt8} {s : Bytes} {r : Bytes × Bytes} (h : breakOn c s = some r) :
    r.2.length < s.length := by
  obtain ⟨rfl, -⟩ := eq_of_breakOn (a := r.1) (b := r.2) h
  simp only [List.length_append, List.length_cons]
  omega

/-- One pass of the loop over the arguments: an argument, and the line behind it. -/
def nextArg (lpCommandLine : Bytes) : Bytes × Option Bytes :=
  if lpCommandLine.head? = some quote then
    match strstrQuote lpCommandLine.tail with
    | some r => (r.1, some r.2)
    | none =>
      match strrchrQuote lpCommandLine.tail with
      -- the last argument
      | some arg => (arg, none)
      | none => (lpCommandLine.tail, none)
  else
    match breakOn space lpCommandLine with
    | some r => (r.1, some r.2)
    | none => (lpCommandLine, none)

theorem length_nextArg {line arg rest : Bytes} (h : nextArg line = (arg, some rest)) :
    rest.length < line.length := by
  unfold nextArg at h
  split_ifs at h
  · cases hr : strstrQuote line.tail with
    | some r =>
      simp only [hr, Prod.mk.injEq, Option.some.injEq] at h
      exact h.2 ▸ (length_strstrQuote hr).trans_le (by simp)
    | none =>
      simp only [hr] at h
      split at h <;> cases h
  · cases hr : breakOn space line with
    | some r =>
      simp only [hr, Prod.mk.injEq, Option.some.injEq] at h
      exact h.2 ▸ length_breakOn hr
    | none =>
      simp only [hr] at h
      cases h

/-- The loop of `CreateProcessAsUserA` over the arguments. -/
def splitArgs (lpCommandLine : Bytes) : List Bytes :=
  match _h : nextArg lpCommandLine with
  | (arg, none) => [arg]
  | (arg, some rest) => arg :: splitArgs rest
termination_by lpCommandLine.length
decreasing_by exact length_nextArg _h

theorem splitArgs_last {line arg : Bytes} (h : nextArg line = (arg, none)) :
    splitArgs line = [arg] := by
  rw [splitArgs]
  split
  case h_1 arg' h' =>
    rw [h] at h'
    cases h'
    rfl
  case h_2 arg' rest h' =>
    rw [h] at h'
    cases h'

theorem splitArgs_more {line arg rest : Bytes} (h : nextArg line = (arg, some rest)) :
    splitArgs line = arg :: splitArgs rest := by
  rw [splitArgs]
  split
  case h_1 arg' h' =>
    rw [h] at h'
    cases h'
  case h_2 arg' rest' h' =>
    rw [h] at h'
    cases h'
    rfl

/-- The program and the rest of the command line.  The place of the space behind the name becomes
its end. -/
def cutProgram (lpCommandLine : Bytes) : Bytes × Option Bytes :=
  if lpCommandLine.head? = some quote then
    match strstrQuote lpCommandLine with
    | some r => (r.1 ++ [quote], some r.2)
    | none => (lpCommandLine, none)
  else
    match breakOn space lpCommandLine with
    | some r => (r.1, some r.2)
    | none => (lpCommandLine, none)

/-- How many arguments there may be. -/
def MAX_ARGS : ℕ := 1000

/-- The path and the arguments for `execve`, with the program as the first of these. -/
def execArgs (lpApplicationName : Bytes) (lpCommandLine : Option Bytes) :
    Option (Bytes × List Bytes) :=
  let lstArg := lpApplicationName :: (lpCommandLine.map splitArgs).getD []
  if lstArg.length > MAX_ARGS then none else some (lpApplicationName, lstArg)

/-- `CreateProcess`, up to `execve`. -/
def createProcess (lpApplicationName lpCommandLine : Option Bytes) : Option (Bytes × List Bytes) :=
  match lpApplicationName, lpCommandLine with
  | some name, _ => execArgs name lpCommandLine
  | none, none => none
  | none, some line => execArgs (cutProgram line).1 (cutProgram line).2

/-! ### Command lines -/

/-- **An argument as it is written**: without quotes inside, and within quotes if it is empty or
has a space. -/
structure Arg where
  text : Bytes
  quoted : Bool
  no_quote : quote ∉ text
  no_nul : 0 ∉ text
  bare : quoted = false → text ≠ [] ∧ space ∉ text

/-- The argument with its quotes. -/
def Arg.written (a : Arg) : Bytes := if a.quoted then quote :: (a.text ++ [quote]) else a.text

/-- The arguments, joined by spaces. -/
def commandLine : List Arg → Bytes
  | [] => []
  | [a] => a.written
  | a :: b :: args => a.written ++ space :: commandLine (b :: args)

/-! ### The scanners on command lines -/

theorem strstrQuote_append {s : Bytes} (hs : quote ∉ s) (rest : Bytes) :
    strstrQuote (s ++ quote :: space :: rest) = some (s, rest) := by
  induction s with
  | nil => simp [strstrQuote]
  | cons a s ih =>
    have ha : a ≠ quote := fun h => hs (h ▸ List.mem_cons_self)
    have hcons : ∃ b t, s ++ quote :: space :: rest = b :: t := by
      cases s with
      | nil => exact ⟨_, _, rfl⟩
      | cons b s => exact ⟨_, _, rfl⟩
    obtain ⟨b, t, hbt⟩ := hcons
    have hrest := ih fun h => hs (List.mem_cons_of_mem _ h)
    rw [hbt] at hrest
    rw [List.cons_append, hbt, strstrQuote, if_neg fun h => ha h.1, hrest]
    rfl

theorem strstrQuote_last {s : Bytes} (hs : quote ∉ s) : strstrQuote (s ++ [quote]) = none := by
  induction s with
  | nil => rfl
  | cons a s ih =>
    have ha : a ≠ quote := fun h => hs (h ▸ List.mem_cons_self)
    have hrest := ih fun h => hs (List.mem_cons_of_mem _ h)
    cases hbt : s ++ [quote] with
    | nil => simp at hbt
    | cons b t =>
      rw [hbt] at hrest
      rw [List.cons_append, hbt, strstrQuote, if_neg fun h => ha h.1, hrest]
      rfl

theorem strrchrQuote_last (s : Bytes) : strrchrQuote (s ++ [quote]) = some s := by
  induction s with
  | nil => rfl
  | cons a s ih => rw [List.cons_append, strrchrQuote, ih]

theorem breakOn_eq_none {c : UInt8} {s : Bytes} (h : c ∉ s) : breakOn c s = none := by
  cases hb : breakOn c s with
  | none => rfl
  | some r =>
    obtain ⟨rfl, -⟩ := eq_of_breakOn (a := r.1) (b := r.2) hb
    exact absurd (List.mem_append_right _ List.mem_cons_self) h

theorem Arg.written_quoted {a : Arg} (h : a.quoted = true) :
    a.written = quote :: (a.text ++ [quote]) := by
  rw [written, if_pos h]

theorem Arg.written_bare {a : Arg} (h : a.quoted = false) : a.written = a.text := by
  rw [written, if_neg (by simp [h])]

theorem Arg.head?_ne {a : Arg} (h : a.quoted = false) (s : Bytes) :
    (a.text ++ s).head? ≠ some quote := by
  obtain ⟨hne, -⟩ := a.bare h
  cases ht : a.text with
  | nil => exact absurd ht hne
  | cons b t =>
    have hb : b ≠ quote := fun hq => a.no_quote (ht ▸ hq ▸ List.mem_cons_self)
    simpa using hb

theorem nextArg_written (a : Arg) : nextArg a.written = (a.text, none) := by
  unfold nextArg
  cases hq : a.quoted with
  | true =>
    rw [a.written_quoted hq, if_pos List.head?_cons, List.tail_cons, strstrQuote_last a.no_quote,
      strrchrQuote_last]
  | false =>
    have hhead := a.head?_ne hq []
    rw [List.append_nil] at hhead
    rw [a.written_bare hq, if_neg hhead, breakOn_eq_none (a.bare hq).2]

theorem nextArg_append (a : Arg) (rest : Bytes) :
    nextArg (a.written ++ space :: rest) = (a.text, some rest) := by
  unfold nextArg
  cases hq : a.quoted with
  | true =>
    have hline : a.written ++ space :: rest = quote :: (a.text ++ quote :: space :: rest) := by
      rw [a.written_quoted hq]
      simp
    rw [hline, if_pos List.head?_cons, List.tail_cons, strstrQuote_append a.no_quote]
  | false => rw [a.written_bare hq, if_neg (a.head?_ne hq _), breakOn_append (a.bare hq).2]

/-- **The scanner of the arguments gives back what was joined.** -/
theorem splitArgs_commandLine (a : Arg) (args : List Arg) :
    splitArgs (commandLine (a :: args)) = (a :: args).map Arg.text := by
  induction args generalizing a with
  | nil => exact splitArgs_last (nextArg_written a)
  | cons b args ih =>
    rw [commandLine, splitArgs_more (nextArg_append a _), ih b]
    rfl

/-! ### The program -/

theorem cutProgram_bare {a : Arg} (h : a.quoted = false) (args : List Arg) :
    cutProgram (commandLine (a :: args)) = (a.text, if args = [] then none
      else some (commandLine args)) := by
  unfold cutProgram
  cases args with
  | nil =>
    have hhead := a.head?_ne h []
    rw [List.append_nil] at hhead
    rw [show commandLine [a] = a.text from a.written_bare h, if_neg hhead,
      breakOn_eq_none (a.bare h).2, if_pos rfl]
  | cons b args =>
    rw [commandLine, a.written_bare h, if_neg (a.head?_ne h _), breakOn_append (a.bare h).2,
      if_neg (List.cons_ne_nil b args)]

/-- **A quoted program keeps a quote.** -/
theorem quote_mem_cutProgram {line : Bytes} (h : line.head? = some quote) :
    quote ∈ (cutProgram line).1 := by
  unfold cutProgram
  rw [if_pos h]
  cases hr : strstrQuote line with
  | some r => exact List.mem_append_right _ (List.mem_singleton.2 rfl)
  | none => exact List.mem_of_head? h

theorem head?_commandLine {a : Arg} (h : a.quoted = true) (args : List Arg) :
    (commandLine (a :: args)).head? = some quote := by
  cases args with
  | nil =>
    rw [commandLine, a.written_quoted h]
    rfl
  | cons b args =>
    rw [commandLine, a.written_quoted h]
    rfl

/-- **The program and the arguments arrive exactly if the program is not quoted**, and there are
not too many of them. -/
theorem createProcess_iff (a : Arg) (args : List Arg) :
    createProcess none (some (commandLine (a :: args))) =
        some (a.text, (a :: args).map Arg.text) ↔
      a.quoted = false ∧ (a :: args).length ≤ MAX_ARGS := by
  have hdef : createProcess none (some (commandLine (a :: args))) =
      execArgs (cutProgram (commandLine (a :: args))).1 (cutProgram (commandLine (a :: args))).2 :=
    rfl
  rw [hdef]
  cases hq : a.quoted with
  | true =>
    refine iff_of_false (fun h => ?_) (fun h => absurd h.1 (by decide))
    simp only [execArgs] at h
    split_ifs at h
    have hpath : (cutProgram (commandLine (a :: args))).1 = a.text :=
      congrArg Prod.fst (Option.some.inj h)
    exact a.no_quote (hpath ▸ quote_mem_cutProgram (head?_commandLine hq args))
  | false =>
    rw [cutProgram_bare hq]
    have hargs : ((if args = [] then none else some (commandLine args)).map splitArgs).getD [] =
        args.map Arg.text := by
      cases args with
      | nil => rfl
      | cons b args =>
        rw [if_neg (List.cons_ne_nil b args)]
        exact splitArgs_commandLine b args
    simp only [execArgs, hargs, List.length_cons, List.length_map, List.map_cons, true_and]
    split_ifs with hlen
    · exact iff_of_false (by simp) (by omega)
    · exact iff_of_true rfl (by omega)

/-- The line of the quoted program `"a b"`. -/
def quotedProgram : Arg :=
  ⟨ascii "a b", true, by decide, by decide, fun h => absurd h (by decide)⟩

/-- **The path of a quoted program has the quotes.** -/
theorem program_with_quotes :
    createProcess none (some (commandLine [quotedProgram])) =
        some (ascii "\"a b\"", [ascii "\"a b\""]) ∧
      createProcess none (some (commandLine [quotedProgram])) ≠
        some (quotedProgram.text, [quotedProgram].map Arg.text) := by
  constructor
  · rfl
  · decide

end CommandLine

end Swinx
